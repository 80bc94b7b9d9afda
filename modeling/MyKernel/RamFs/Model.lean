import MyKernel.Lib.CString

/-! The RAM file system of `fs.c`. A parent of -1 is `none`. The lock is left out; critical sections are kept apart.
`none` as a result is an endless walk or a store outside a local array. -/
namespace MyKernel.RamFs
open CString

def FS_MAX_NODES : Nat := 256
def FS_ROOT_INDEX : Nat := 0
def FS_NAME_MAX : Nat := 48
def FS_FILE_MAX : Nat := 8192

inductive FsType where
  | free | dir | file
  deriving DecidableEq, Repr

inductive FsResult where
  | ok | notFound | alreadyExists | notADirectory | isADirectory | noSpace | dirNotEmpty
  | invalidName | tooBig
  deriving DecidableEq, Repr

structure FsNode where
  type : FsType
  name : Nat → UInt8
  parent : Option Nat
  content : Nat → UInt8
  contentLen : Nat

structure Fs where
  nodes : Nat → FsNode
  cwd : Nat

def kStreq (a : Nat → UInt8) (b : List UInt8) : Bool := streq a b

def kStrcpyTruncate (dst : Nat → UInt8) (src : List UInt8) (dstSize : Nat) : Nat → UInt8 :=
  strcpyTruncate dst src dstSize

def kMemcpy (d s : Nat → UInt8) (n : Nat) : Nat → UInt8 := fun i => if i<n then s i else d i

def bytesAt (data : List UInt8) (i : Nat) : UInt8 := data.getD i 0

def dot : List UInt8 := [0x2E]
def dotdot : List UInt8 := [0x2E,0x2E]
def slash : List UInt8 := [0x2F]

def Fs.setNode (s : Fs) (i : Nat) (n : FsNode) : Fs :=
  { s with nodes := fun j => if j=i then n else s.nodes j }

def fsAllocNode (s : Fs) : Option Nat :=
  (List.range FS_MAX_NODES).find? fun i => (s.nodes i).type == .free

def fsFindChild (s : Fs) (parentIdx : Nat) (name : List UInt8) : Option Nat :=
  (List.range FS_MAX_NODES).find? fun i =>
    (s.nodes i).type != .free && (s.nodes i).parent == some parentIdx &&
      kStreq (s.nodes i).name name

def fsIsValidName (name : List UInt8) : Bool :=
  if name=[] then false
  else if name=dot ∨ name=dotdot then false
  else if name.length≥FS_NAME_MAX then false
  else true

def fsMkdir (s : Fs) (name : List UInt8) : FsResult × Fs :=
  if !fsIsValidName name then (.invalidName,s)
  else if fsFindChild s s.cwd name≠none then (.alreadyExists,s)
  else match fsAllocNode s with
    | none => (.noSpace,s)
    | some idx => (.ok,s.setNode idx { s.nodes idx with
        type := .dir
        name := kStrcpyTruncate (s.nodes idx).name name FS_NAME_MAX
        parent := some s.cwd })

def fsTouch (s : Fs) (name : List UInt8) : FsResult × Fs :=
  if !fsIsValidName name then (.invalidName,s)
  else if fsFindChild s s.cwd name≠none then (.alreadyExists,s)
  else match fsAllocNode s with
    | none => (.noSpace,s)
    | some idx => (.ok,s.setNode idx {
        type := .file
        name := kStrcpyTruncate (s.nodes idx).name name FS_NAME_MAX
        parent := some s.cwd
        contentLen := 0
        content := setByte (s.nodes idx).content 0 0 })

def fsCd (s : Fs) (name : List UInt8) : FsResult × Fs :=
  if name=dot then (.ok,s)
  else if name=dotdot then
    match (s.nodes s.cwd).parent with
    | none => (.ok,s)
    | some p => (.ok,{ s with cwd := p })
  else if name=slash then (.ok,{ s with cwd := FS_ROOT_INDEX })
  else match fsFindChild s s.cwd name with
    | none => (.notFound,s)
    | some idx =>
      if (s.nodes idx).type ≠ .dir then (.notADirectory,s)
      else (.ok,{ s with cwd := idx })

def fsInit (s : Fs) : Fs :=
  let s : Fs := { s with nodes := fun i => { s.nodes i with type := .free } }
  let s : Fs := s.setNode FS_ROOT_INDEX { s.nodes FS_ROOT_INDEX with
    type := .dir
    name := kStrcpyTruncate (s.nodes FS_ROOT_INDEX).name slash FS_NAME_MAX
    parent := none }
  let s : Fs := { s with cwd := FS_ROOT_INDEX }
  let s := (fsMkdir s [0x6C,0x69,0x62]).2
  let s := (fsMkdir s [0x62,0x69,0x6E]).2
  let s := (fsMkdir s [0x75,0x73,0x72]).2
  let s := (fsCd s [0x75,0x73,0x72]).2
  let s := (fsMkdir s [0x6C,0x69,0x62]).2
  (fsCd s slash).2

def fsFreeSlot (s : Fs) (idx : Nat) : Fs :=
  s.setNode idx { s.nodes idx with
    type := .free
    contentLen := 0
    content := setByte (s.nodes idx).content 0 0
    name := setByte (s.nodes idx).name 0 0
    parent := none }

/-- A walk of more than `FS_MAX_NODES` steps repeats a node. -/
def inSubtreeLoop (s : Fs) (idx : Nat) : Nat → Option Nat → Option Bool
  | _, none => some false
  | 0, some _ => none
  | fuel+1, some walk =>
    if walk=idx then some true else inSubtreeLoop s idx fuel (s.nodes walk).parent

def fsCwdInSubtree (s : Fs) (idx : Nat) : Option Bool :=
  inSubtreeLoop s idx (FS_MAX_NODES+1) (some s.cwd)

structure Queue where
  items : List Nat
  seen : Nat → Bool

/-- The inner loop over the table; `none` is the `FS_ERR_NO_SPACE` exit. -/
def enqueueChildren (s : Fs) (u : Nat) : List Nat → Queue → Option Queue
  | [], q => some q
  | i::is, q =>
    if (s.nodes i).type = .free then enqueueChildren s u is q
    else if (s.nodes i).parent≠some u then enqueueChildren s u is q
    else if q.seen i then enqueueChildren s u is q
    else if FS_MAX_NODES≤q.items.length then none
    else enqueueChildren s u is
      { items := q.items++[i], seen := fun j => if j=i then true else q.seen j }

/-- `while (qh < qt)`: the queue never holds more than `FS_MAX_NODES` entries. -/
def bfsLoop (s : Fs) : Nat → Nat → Queue → Option Queue
  | 0, _, _ => none
  | fuel+1, qh, q =>
    match q.items[qh]? with
    | none => some q
    | some u =>
      if (s.nodes u).type ≠ .dir then bfsLoop s fuel (qh+1) q
      else match enqueueChildren s u (List.range FS_MAX_NODES) q with
        | none => none
        | some q => bfsLoop s fuel (qh+1) q

def fsRmSubtree (s : Fs) (rootIdx : Nat) : Option (FsResult × Fs) :=
  if FS_MAX_NODES≤rootIdx then some (.notFound,s)
  else if (s.nodes rootIdx).type = .free then some (.ok,s)
  else if rootIdx=FS_ROOT_INDEX then some (.invalidName,s)
  else match bfsLoop s (FS_MAX_NODES+1) 0 ⟨[rootIdx],fun i => i == rootIdx⟩ with
    | none => some (.noSpace,s)
    | some q =>
      (fsCwdInSubtree s rootIdx).map fun inside =>
        let s : Fs := if inside then
          { s with cwd := ((s.nodes rootIdx).parent).getD FS_ROOT_INDEX } else s
        (.ok,q.items.reverse.foldl fsFreeSlot s)

def hasChild (s : Fs) (idx : Nat) : Bool :=
  (List.range FS_MAX_NODES).any fun i =>
    (s.nodes i).type != .free && (s.nodes i).parent == some idx

def fsRm (s : Fs) (name : List UInt8) : Option (FsResult × Fs) :=
  if name=[] then some (.invalidName,s)
  else if name=slash then some (.invalidName,s)
  else match fsFindChild s s.cwd name with
    | none => some (.notFound,s)
    | some idx =>
      if (s.nodes idx).type = .dir ∧ hasChild s idx then some (.dirNotEmpty,s)
      else fsRmSubtree s idx

def fsRmRf (s : Fs) (name : List UInt8) : Option (FsResult × Fs) :=
  if name=[] then some (.invalidName,s)
  else if name=slash then some (.invalidName,s)
  else match fsFindChild s s.cwd name with
    | none => some (.notFound,s)
    | some idx => fsRmSubtree s idx

/-- Find the child, or create it with `fs_touch` and look again. -/
def findOrTouch (s : Fs) (name : List UInt8) : FsResult × Option Nat × Fs :=
  match fsFindChild s s.cwd name with
  | some idx => (.ok,some idx,s)
  | none =>
    let (r,s) := fsTouch s name
    if r ≠ .ok then (r,none,s) else (.ok,fsFindChild s s.cwd name,s)

def fsWriteBin (s : Fs) (name data : List UInt8) : FsResult × Fs :=
  if FS_FILE_MAX≤data.length then (.tooBig,s)
  else
    match findOrTouch s name with
    | (.ok,none,s) => (.notFound,s)
    | (.ok,some idx,s) =>
      if (s.nodes idx).type ≠ .file then (.isADirectory,s)
      else (.ok,s.setNode idx { s.nodes idx with
        content := setByte (kMemcpy (s.nodes idx).content (bytesAt data) data.length)
          data.length 0
        contentLen := data.length })
    | (r,_,s) => (r,s)

def fsWrite (s : Fs) (name text : List UInt8) : FsResult × Fs := fsWriteBin s name text

/-- `while (text[i] && pos < FS_FILE_MAX - 1) content[pos++] = text[i++];` -/
def appendLoop : List UInt8 → (Nat → UInt8) → Nat → (Nat → UInt8) × Nat
  | [], content, pos => (content,pos)
  | c::cs, content, pos =>
    if pos<FS_FILE_MAX - 1 then appendLoop cs (setByte content pos c) (pos+1)
    else (content,pos)

def appendText (n : FsNode) (text : List UInt8) : FsNode :=
  let (content,pos) :=
    if 0<n.contentLen ∧ n.contentLen<FS_FILE_MAX - 1
    then (setByte n.content n.contentLen 0x0A,n.contentLen+1)
    else (n.content,n.contentLen)
  let (content,pos) := appendLoop text content pos
  { n with content := setByte content pos 0, contentLen := pos }

def fsAppend (s : Fs) (name text : List UInt8) : FsResult × Fs :=
  match findOrTouch s name with
  | (.ok,none,s) => (.notFound,s)
  | (.ok,some idx,s) =>
    if (s.nodes idx).type ≠ .file then (.isADirectory,s)
    else (.ok,s.setNode idx (appendText (s.nodes idx) text))
  | (r,_,s) => (r,s)

/-- `component[n] = 0` may be outside the array. -/
def mkdirPLoop (saved : Nat) : Nat → List UInt8 → Fs → Option (FsResult × Fs)
  | _, [], s => some (.ok,{ s with cwd := saved })
  | 0, _::_, _ => none
  | fuel+1, c::cs, s =>
    let component := (c::cs).takeWhile (fun b => b != 0x2F)
    let rest := ((c::cs).dropWhile (fun b => b != 0x2F)).drop 1
    if FS_NAME_MAX≤component.length then none
    else if component=[] then mkdirPLoop saved fuel rest s
    else match fsFindChild s s.cwd component with
      | some idx =>
        if (s.nodes idx).type ≠ .dir then some (.notADirectory,{ s with cwd := saved })
        else mkdirPLoop saved fuel rest { s with cwd := idx }
      | none =>
        let (r,s) := fsMkdir s component
        if r ≠ .ok then some (r,{ s with cwd := saved })
        else match fsFindChild s s.cwd component with
          | none => none
          | some idx =>
            if (s.nodes idx).type ≠ .dir then some (.notADirectory,{ s with cwd := saved })
            else mkdirPLoop saved fuel rest { s with cwd := idx }

def fsMkdirP (s : Fs) (path : List UInt8) : Option (FsResult × Fs) :=
  match path with
  | [] => some (.invalidName,s)
  | c::cs =>
    if c≠0x2F then some (.invalidName,s)
    else mkdirPLoop s.cwd cs.length cs { s with cwd := FS_ROOT_INDEX }

def fsCp (s : Fs) (src dst : List UInt8) : FsResult × Fs :=
  match fsFindChild s s.cwd src with
  | none => (.notFound,s)
  | some sidx =>
    if (s.nodes sidx).type ≠ .file then (.isADirectory,s)
    else if !fsIsValidName dst then (.invalidName,s)
    else if fsFindChild s s.cwd dst≠none then (.alreadyExists,s)
    else match fsAllocNode s with
      | none => (.noSpace,s)
      | some didx => (.ok,s.setNode didx {
          type := .file
          name := kStrcpyTruncate (s.nodes didx).name dst FS_NAME_MAX
          parent := some s.cwd
          contentLen := (s.nodes sidx).contentLen
          content := setByte (kMemcpy (s.nodes didx).content (s.nodes sidx).content
            (s.nodes sidx).contentLen) (s.nodes sidx).contentLen 0 })

def fsMv (s : Fs) (src dst : List UInt8) : FsResult × Fs :=
  match fsFindChild s s.cwd src with
  | none => (.notFound,s)
  | some sidx =>
    if !fsIsValidName dst then (.invalidName,s)
    else if fsFindChild s s.cwd dst≠none then (.alreadyExists,s)
    else (.ok,s.setNode sidx { s.nodes sidx with
      name := kStrcpyTruncate (s.nodes sidx).name dst FS_NAME_MAX })

def fsRead (s : Fs) (name : List UInt8) : Except FsResult Nat :=
  match fsFindChild s s.cwd name with
  | none => .error .notFound
  | some idx => if (s.nodes idx).type ≠ .file then .error .isADirectory else .ok idx

/-- Every pass takes a byte off the path. -/
def readPathLoop (s : Fs) : Nat → Nat → List UInt8 → Except FsResult FsNode
  | _, _, [] => .error .notFound
  | 0, _, _::_ => .error .notFound
  | fuel+1, dir, c::cs =>
    let component := (c::cs).takeWhile (fun b => b != 0x2F)
    let rest := ((c::cs).dropWhile (fun b => b != 0x2F)).drop 1
    if FS_NAME_MAX≤component.length then .error .invalidName
    else if component=[] ∨ component=dot then readPathLoop s fuel dir rest
    else if component=dotdot then
      match (s.nodes dir).parent with
      | some p => readPathLoop s fuel p rest
      | none => readPathLoop s fuel dir rest
    else match fsFindChild s dir component with
      | none => .error .notFound
      | some idx =>
        if rest=[] then
          if (s.nodes idx).type ≠ .file then .error .isADirectory else .ok (s.nodes idx)
        else if (s.nodes idx).type ≠ .dir then .error .notADirectory
        else readPathLoop s fuel idx rest

def fsReadPath (s : Fs) (path : List UInt8) : Except FsResult FsNode :=
  match path with
  | [] => .error .notFound
  | c::cs =>
    if c≠0x2F then readPathLoop s (c::cs).length s.cwd (c::cs)
    else readPathLoop s cs.length FS_ROOT_INDEX cs

end MyKernel.RamFs
