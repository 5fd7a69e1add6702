namespace EmbeddedStyles

structure Path where
  text : String
  deriving DecidableEq, Repr, Inhabited

namespace Path

inductive Component where
  | root
  | current
  | parent
  | normal (name : List Char)
  deriving DecidableEq, Repr

def separator : Char := '/'

def segments (cs : List Char) : List (List Char) :=
  cs.splitOn separator

-- A segment that is no component unless it stands first.
def isBlankSegment (segment : List Char) : Bool :=
  segment = [] || segment = ['.']

def ofSegment (segment : List Char) : Component :=
  if segment = ['.', '.'] then .parent else .normal segment

-- The components in segments none of which stands first.
def inner (segments : List (List Char)) : List Component :=
  (segments.filter (!isBlankSegment ·)).map ofSegment

-- An empty segment followed by others is the root, and a dot in front is the current directory.
def componentsOfSegments : List (List Char) → List Component
  | [] => []
  | first :: rest =>
    if first = [] && !rest.isEmpty then .root :: inner rest
    else if first = ['.'] then .current :: inner rest
    else inner (first :: rest)

def componentsOf (cs : List Char) : List Component :=
  componentsOfSegments (segments cs)

-- What a path means. It has many spellings, as separators may be repeated and dots between them
-- mean nothing.
def components (p : Path) : List Component :=
  componentsOf p.text.toList

-- Whether two paths have the same components.
def same (p q : Path) : Bool :=
  p.components = q.components

@[simp] theorem same_iff (p q : Path) : p.same q = true ↔ p.components = q.components := by
  simp [same]

theorem same_refl (p : Path) : p.same p = true := by
  simp

theorem same_comm (p q : Path) : p.same q = q.same p := by
  simp only [same, eq_comm]

theorem same_trans {p q r : Path} (h : p.same q = true) (k : q.same r = true) :
    p.same r = true := by
  simp_all

def isAbsolute (p : Path) : Bool :=
  p.text.toList.head? = some separator

-- The other path seen from this one. An absolute path stays as it is.
def joinChars (base other : List Char) : List Char :=
  if other.head? = some separator then other
  else if base.isEmpty || base.getLast? = some separator then base ++ other
  else base ++ separator :: other

def join (base other : Path) : Path :=
  ⟨String.ofList (joinChars base.text.toList other.text.toList)⟩

def dropBlankEnd (segments : List (List Char)) : List (List Char) :=
  (segments.reverse.dropWhile isBlankSegment).reverse

-- Segments without the blank ones at either end.
def trimSegments (segments : List (List Char)) : List (List Char) :=
  dropBlankEnd (segments.dropWhile isBlankSegment)

-- Drops segments until so many components are gone.
def dropComponents : Nat → List (List Char) → List (List Char)
  | 0, segments => segments
  | _ + 1, [] => []
  | n + 1, segment :: segments =>
    if isBlankSegment segment then dropComponents (n + 1) segments else dropComponents n segments

-- A path without the separators and dots at its end. The root and a dot in front stay.
def trimEnd (cs : List Char) : List Char :=
  match segments cs with
  | [] => []
  | first :: rest =>
    if first = [] && !rest.isEmpty then
      separator :: [separator].intercalate (dropBlankEnd rest)
    else [separator].intercalate (first :: dropBlankEnd rest)

-- What is left of a path after its first `n` components.
def dropFirst (n : Nat) (cs : List Char) : List Char :=
  match n, segments cs with
  | 0, _ => trimEnd cs
  | _, [] => []
  | n + 1, first :: rest =>
    let isFirst := first = [] && !rest.isEmpty || first = ['.']
    let rest := if isFirst then dropComponents n rest else dropComponents (n + 1) (first :: rest)
    [separator].intercalate (trimSegments rest)

-- The path as it is seen from a directory whose components it starts with.
def relativeTo? (p base : Path) : Option Path :=
  if base.components.isPrefixOf p.components then
    some ⟨String.ofList (dropFirst base.components.length p.text.toList)⟩
  else none

def relativeTo (p base : Path) : Path :=
  (p.relativeTo? base).getD p

-- The last component goes, with the separators before it. The root has no parent.
def parentSegments (segments : List (List Char)) : List (List Char) :=
  (dropBlankEnd segments).dropLast

def parent? (p : Path) : Option Path :=
  match p.components with
  | [] => none
  | [.root] => none
  | [_] => some ⟨""⟩
  | _ :: _ :: _ =>
    let cs := p.text.toList
    match segments cs with
    | [] => none
    | first :: rest =>
      let kept := dropBlankEnd (parentSegments rest)
      some ⟨String.ofList
        (if first = [] && !rest.isEmpty then separator :: [separator].intercalate kept
        else [separator].intercalate (first :: kept))⟩

def fileName? (p : Path) : Option String :=
  match p.components.getLast? with
  | some (.normal name) => some (String.ofList name)
  | _ => none

-- Components in the order root, current, parent, names, and names by their characters.
def Component.rank : Component → Nat
  | .root => 0
  | .current => 1
  | .parent => 2
  | .normal _ => 3

def Component.compare (a b : Component) : Ordering :=
  match a, b with
  | .normal a, .normal b => Ord.compare (String.ofList a) (String.ofList b)
  | a, b => Ord.compare a.rank b.rank

def compareComponents : List Component → List Component → Ordering
  | [], [] => .eq
  | [], _ :: _ => .lt
  | _ :: _, [] => .gt
  | a :: as, b :: bs => (a.compare b).then (compareComponents as bs)

def compare (p q : Path) : Ordering :=
  compareComponents p.components q.components

end Path

end EmbeddedStyles
