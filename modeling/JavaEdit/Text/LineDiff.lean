import JavaEdit.Text.Similarity

/-!
# Differences between texts, line by line

Two texts are compared by a shortest sequence of removed and added lines, found by searching from
both ends until the searches meet on a diagonal. Added lines then slide as far down as the lines
around them allow, and within one place removed lines come before added ones.
-/

namespace JavaEdit.Text

def linesWithEnds : List Char → List (List Char)
  | [] => []
  | '\r' :: '\n' :: cs => ['\r', '\n'] :: linesWithEnds cs
  | c :: cs =>
    if c == '\r' || c == '\n' then [c] :: linesWithEnds cs
    else
      match linesWithEnds cs with
      | [] => [[c]]
      | line :: rest => (c :: line) :: rest

def commonEnd {α : Type} [BEq α] (a b : List α) : Nat := commonStart a.reverse b.reverse

/-- How far a search has come on each diagonal. -/
structure Front where
  offset : Nat
  reach : Array Nat

namespace Front

/-- Nothing searched yet, for searches of at most so many steps. -/
def start (bound : Nat) : Front := ⟨bound + 1, Array.replicate (2 * bound + 3) 0⟩

/-- How far the search has come on a diagonal. -/
def reached (v : Front) (k : Int) : Nat := v.reach.getD (k + v.offset).toNat 0

/-- The front with another end of a diagonal. -/
def put (v : Front) (k : Int) (x : Nat) : Front :=
  { v with reach := v.reach.setIfInBounds (k + v.offset).toNat x }

/-- Where step `d` enters a diagonal: from the neighbour that came further. -/
def entry (v : Front) (d k : Int) : Nat :=
  if k == -d || (k != d && v.reached (k - 1) < v.reached (k + 1)) then v.reached (k + 1)
  else v.reached (k - 1) + 1

end Front

/-- Length of the equal run that starts at two places. -/
def runLength (a b : Array String) : Nat → Nat → Nat → Nat
  | 0, _, _ => 0
  | fuel + 1, x, y =>
    match a[x]?, b[y]? with
    | some s, some t => if s == t then runLength a b fuel (x + 1) (y + 1) + 1 else 0
    | _, _ => 0

/-- One step of a search over all its diagonals, until it meets the front of the other search:
where it entered the diagonal on which they met and where it came to there. -/
def sweepDiagonals (a b : Array String) (d : Int) (meets : Int → Nat → Bool) :
    List Int → Front → Front × Option ((Nat × Nat) × (Nat × Nat))
  | [], v => (v, none)
  | k :: ks, v =>
    let x := v.entry d k
    let y := ((x : Int) - k).toNat
    let run := runLength a b a.size x y
    let v := v.put k (x + run)
    if meets k (x + run) then (v, some ((x, y), (x + run, y + run)))
    else sweepDiagonals a b d meets ks v

def diagonals (d : Nat) : List Int := (List.range (d + 1)).map fun (i : Nat) => (d : Int) - 2 * (i : Int)

/-- Search from both ends, one step each in turn. -/
def searchMiddle (old new oldBack newBack : Array String) :
    Nat → Nat → Front → Front → Option (Nat × Nat)
  | 0, _, _, _ => none
  | fuel + 1, d, forward, backward =>
    let n := old.size
    let delta : Int := (n : Int) - new.size
    let odd := delta % 2 != 0
    let step : Int := d
    let (forward, found) := sweepDiagonals old new step
      (fun k x => odd && (k - delta).natAbs < d && n ≤ x + backward.reached (delta - k))
      (diagonals d) forward
    match found with
    | some (entered, _) => some entered
    | none =>
      let (backward, found) := sweepDiagonals oldBack newBack step
        (fun k x => !odd && (k - delta).natAbs ≤ d && n ≤ x + forward.reached (delta - k))
        (diagonals d) backward
      match found with
      | some (_, (x, y)) => some (n - x, new.size - y)
      | none => searchMiddle old new oldBack newBack fuel (d + 1) forward backward

/-- Where a shortest way from one list of lines to another can be cut in two. -/
def middle? (old new : List String) : Option (Nat × Nat) :=
  let bound := (old.length + new.length + 1) / 2 + 1
  searchMiddle old.toArray new.toArray old.reverse.toArray new.reverse.toArray bound 0
    (.start bound) (.start bound)

/-- Lines of the same fate. -/
inductive Chunk where
  | same (lines : List String)
  | removed (lines : List String)
  | added (lines : List String)
  deriving DecidableEq, Repr

namespace Chunk

/-- Equal lines, unless there are none. -/
def sameIfAny (lines : List String) : List Chunk := if lines.isEmpty then [] else [.same lines]

/-- A shortest way from one list of lines to another. -/
def between : Nat → List String → List String → List Chunk
  | 0, old, new => [.removed old, .added new]
  | fuel + 1, old, new =>
    let start := commonStart old new
    let front := old.take start
    let old := old.drop start
    let new := new.drop start
    let stop := commonEnd old new
    let back := old.drop (old.length - stop)
    let old := old.take (old.length - stop)
    let new := new.take (new.length - stop)
    let inner :=
      match old, new with
      | [], [] => []
      | _, [] => [.removed old]
      | [], _ => [.added new]
      | _, _ =>
        match middle? old new with
        | some (x, y) =>
          between fuel (old.take x) (new.take y) ++ between fuel (old.drop x) (new.drop y)
        | none => [.removed old, .added new]
    sameIfAny front ++ inner ++ sameIfAny back

end Chunk

/-- A chunk among others; those in front of it with the nearest first. -/
structure ChunkPlace where
  before : List Chunk
  this : Chunk
  after : List Chunk

namespace ChunkPlace

/-- Put equal lines in front of the chunks behind a place. -/
def prependSame (lines : List String) : List Chunk → List Chunk
  | .same more :: rest => .same (lines ++ more) :: rest
  | chunks => .same lines :: chunks

/-- Put equal lines behind the chunks in front of a place. -/
def appendSame (lines : List String) : List Chunk → List Chunk
  | .same more :: rest => .same (more ++ lines) :: rest
  | chunks => .same lines :: chunks

/-- Move a chunk up: added lines over equal ones as far as they repeat them, changes over changes
of the other sort; changes of the same sort become one. -/
def moveUp : Nat → ChunkPlace → ChunkPlace
  | 0, p => p
  | fuel + 1, p =>
    match p.this, p.before with
    | .added lines, .same others :: before =>
      let count := commonEnd others lines
      let tail := others.drop (others.length - count)
      if count == 0 then p
      else
        moveUp fuel
          { before := Chunk.sameIfAny (others.take (others.length - count)) ++ before
            this := .added (tail ++ lines.take (lines.length - count))
            after := prependSame tail p.after }
    | .added _, .removed lines :: before =>
      moveUp fuel { p with before, after := .removed lines :: p.after }
    | .removed _, .added lines :: before =>
      moveUp fuel { p with before, after := .added lines :: p.after }
    | .added lines, .added others :: before =>
      moveUp fuel { p with before, this := .added (others ++ lines) }
    | .removed lines, .removed others :: before =>
      moveUp fuel { p with before, this := .removed (others ++ lines) }
    | _, _ => p

def moveDown : Nat → ChunkPlace → ChunkPlace
  | 0, p => p
  | fuel + 1, p =>
    match p.this, p.after with
    | .added lines, .same others :: after =>
      let count := commonStart others lines
      let head := others.take count
      if count == 0 then p
      else
        moveDown fuel
          { before := appendSame head p.before
            this := .added (lines.drop count ++ head)
            after := Chunk.sameIfAny (others.drop count) ++ after }
    | .added _, .removed lines :: after =>
      moveDown fuel { p with before := .removed lines :: p.before, after }
    | .removed _, .added lines :: after =>
      moveDown fuel { p with before := .added lines :: p.before, after }
    | .added lines, .added others :: after =>
      moveDown fuel { p with this := .added (lines ++ others), after }
    | .removed lines, .removed others :: after =>
      moveDown fuel { p with this := .removed (lines ++ others), after }
    | _, _ => p

/-- Move each chunk of one sort up and down again, from the first to the last. -/
def settle (isMoved : Chunk → Bool) (bound : Nat) : Nat → List Chunk → List Chunk → List Chunk
  | 0, before, after => before.reverse ++ after
  | _ + 1, before, [] => before.reverse
  | fuel + 1, before, this :: after =>
    if isMoved this then
      let p := moveDown bound (moveUp bound { before, this, after })
      settle isMoved bound fuel (p.this :: p.before) p.after
    else settle isMoved bound fuel (this :: before) after

end ChunkPlace

def Chunk.isRemoved : Chunk → Bool
  | removed _ => true
  | _ => false

def Chunk.isAdded : Chunk → Bool
  | added _ => true
  | _ => false

/-- Lines behind the marks of what became of them; removed lines in front of the added ones of the
same place. -/
def markedLines (removed added : List String) : List Chunk → List (Char × String)
  | [] => removed.map ('-', ·) ++ added.map ('+', ·)
  | .same lines :: rest =>
    removed.map ('-', ·) ++ added.map ('+', ·) ++ lines.map (' ', ·) ++ markedLines [] [] rest
  | .removed lines :: rest => markedLines (removed ++ lines) added rest
  | .added lines :: rest => markedLines removed (added ++ lines) rest

/-- The lines of two texts with the marks of what became of them. -/
def lineDiff (old new : String) : List (Char × String) :=
  let oldLines := (linesWithEnds old.toList).map String.ofList
  let newLines := (linesWithEnds new.toList).map String.ofList
  let size := oldLines.length + newLines.length + 2
  let bound := size * size
  let chunks := Chunk.between size oldLines newLines
  let chunks := ChunkPlace.settle Chunk.isRemoved bound bound [] chunks
  let chunks := ChunkPlace.settle Chunk.isAdded bound bound [] chunks
  markedLines [] [] chunks

end JavaEdit.Text
