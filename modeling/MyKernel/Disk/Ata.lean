import Mathlib.Logic.Basic

/-! The sector interface of `ata.c`. What the drive does with command `n` is an input: `some k` is an error after `k`
sectors. -/
namespace MyKernel.Disk

def SECTOR_SIZE : Nat := 512

def u28 (n : Nat) : Nat := n%268435456

/-- `written` is not in the source: the sectors stored so far, as the drive decodes them. -/
structure Ata where
  present : Bool
  attached : Bool
  outcome : Nat → Option Nat
  ops : Nat
  disk : Nat → Nat → UInt8
  written : List Nat

def readInto (disk : Nat → Nat → UInt8) (lba n : Nat) (buf : Nat → UInt8) : Nat → UInt8 :=
  fun i => if i<SECTOR_SIZE*n then disk (lba+i/SECTOR_SIZE) (i%SECTOR_SIZE) else buf i

def writeFrom (disk : Nat → Nat → UInt8) (lba n : Nat) (buf : Nat → UInt8) : Nat → Nat → UInt8 :=
  fun s o => if lba ≤ s ∧ s<lba+n then buf (SECTOR_SIZE*(s-lba)+o) else disk s o

def ataReadSectors (a : Ata) (lba count : Nat) (buf : Nat → UInt8) : Bool × (Nat → UInt8) × Ata :=
  if !a.present ∨ count=0 then (false,buf,a)
  else match a.outcome a.ops with
    | none => (true,readInto a.disk (u28 lba) count buf,{ a with ops := a.ops+1 })
    | some k => (false,readInto a.disk (u28 lba) (min k count) buf,{ a with ops := a.ops+1 })

def Ata.store (a : Ata) (lba n : Nat) (buf : Nat → UInt8) : Ata :=
  { a with
    ops := a.ops+1
    disk := writeFrom a.disk lba n buf
    written := List.range' lba n++a.written }

def ataWriteSectors (a : Ata) (lba count : Nat) (buf : Nat → UInt8) : Bool × Ata :=
  if !a.present ∨ count=0 then (false,a)
  else match a.outcome a.ops with
    | none => (true,a.store (u28 lba) count buf)
    | some k => (false,a.store (u28 lba) (min k count) buf)

def ataInit (a : Ata) : Bool × Ata := (a.attached,{ a with present := a.attached })

def Ideal (a : Ata) : Prop := a.present=true ∧ ∀ n, a.outcome n=none

variable {a : Ata} {lba count : Nat} {buf : Nat → UInt8}

theorem u28_lt (n : Nat) : u28 n<268435456 := Nat.mod_lt n (by decide)

theorem u28_of_lt {n : Nat} (h : n<268435456) : u28 n=n := Nat.mod_eq_of_lt h

theorem Ideal.not_absent (h : Ideal a) : ¬ (!a.present)=true := by simp [h.1]

theorem ataReadSectors_ideal (h : Ideal a) (hc : 0<count) :
    ataReadSectors a lba count buf =
      (true,readInto a.disk (u28 lba) count buf,{ a with ops := a.ops+1 }) := by
  simp [ataReadSectors,h.1,h.2,Nat.ne_of_gt hc]

theorem ataWriteSectors_ideal (h : Ideal a) (hc : 0<count) :
    ataWriteSectors a lba count buf=(true,a.store (u28 lba) count buf) := by
  simp [ataWriteSectors,h.1,h.2,Nat.ne_of_gt hc]

end MyKernel.Disk
