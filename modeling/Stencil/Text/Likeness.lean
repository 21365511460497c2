/-!
How alike two texts are: twice the number of matched characters over the total length, where
matches are found by taking the longest common block and going on to its left and right.
-/

namespace Stencil.Text.Likeness

/-- A common block: where it starts in the first and the second text, and its length. -/
structure Block where
  left : Nat
  right : Nat
  size : Nat

/-- Lengths of the common runs that end at a character of the first text and at each of the second;
`above` holds the lengths one character earlier on both sides. Frequent characters start no run. -/
def runLengths (frequent : Char → Bool) (c : Char) : List Char → List Nat → List Nat
  | [], _ => []
  | d :: ds, above =>
    (if c == d && !frequent d then above.headD 0 + 1 else 0) ::
      runLengths frequent c ds above.tail

/-- The best block after one row of run lengths; an earlier block of the same size stays. -/
def bestOfRow (i : Nat) (best : Block) : Nat → List Nat → Block
  | _, [] => best
  | j, k :: rest =>
    bestOfRow i (if k > best.size then ⟨i + 1 - k, j + 1 - k, k⟩ else best) (j + 1) rest

/-- The first longest run over all rows. -/
def longestRun (frequent : Char → Bool) (b : List Char) :
    Nat → List Nat → Block → List Char → Block
  | _, _, best, [] => best
  | i, row, best, c :: rest =>
    let next := runLengths frequent c b (0 :: row)
    longestRun frequent b (i + 1) next (bestOfRow i best 0 next) rest

/-- Length of the common prefix of two texts. -/
def commonPrefix : List Char → List Char → Nat
  | c :: cs, d :: ds => if c == d then commonPrefix cs ds + 1 else 0
  | _, _ => 0

/-- The longest common block, extended on both sides over frequent characters too. -/
def longestBlock (frequent : Char → Bool) (a b : List Char) : Block :=
  let run := longestRun frequent b 0 [] ⟨0, 0, 0⟩ a
  let back := commonPrefix (a.take run.left).reverse (b.take run.right).reverse
  let ahead := commonPrefix (a.drop (run.left + run.size)) (b.drop (run.right + run.size))
  ⟨run.left - back, run.right - back, back + run.size + ahead⟩

/-- Number of characters in common blocks; every step takes at least one character of `a`. -/
def matchedWithin (frequent : Char → Bool) : Nat → List Char → List Char → Nat
  | 0, _, _ => 0
  | fuel + 1, a, b =>
    let block := longestBlock frequent a b
    if block.size == 0 then 0
    else
      matchedWithin frequent fuel (a.take block.left) (b.take block.right) + block.size +
        matchedWithin frequent fuel (a.drop (block.left + block.size))
          (b.drop (block.right + block.size))

/-- In a text of 200 characters or more, those that make up over one per cent of it. -/
def isFrequentIn (b : List Char) (c : Char) : Bool :=
  200 ≤ b.length && b.length / 100 + 1 < b.count c

/-- Number of characters of `a` matched with characters of `b`. -/
def matched (a b : List Char) : Nat := matchedWithin (isFrequentIn b) (a.length + 1) a b

/-- A candidate: the number of characters it shares with the wanted name, and the length of both. -/
structure Candidate where
  name : String
  shared : Nat
  total : Nat

/-- Whether a candidate is close enough to be offered: a likeness of three fifths. -/
def Candidate.isClose (c : Candidate) : Bool := c.total == 0 || 3 * c.total ≤ 10 * c.shared

/-- Whether the second candidate is preferred: more alike, or as alike with the greater name. -/
def Candidate.isBetter (old new : Candidate) : Bool :=
  let before := old.shared * new.total
  let after := new.shared * old.total
  before < after || (before == after && old.name < new.name)

/-- A name compared with the wanted one. -/
def Candidate.of (wanted name : String) : Candidate :=
  ⟨name, matched name.toList wanted.toList, name.length + wanted.length⟩

/-- The closest of the names, if one is close enough. -/
def closest (wanted : String) (names : List String) : Option String :=
  let close := (names.map (Candidate.of wanted)).filter Candidate.isClose
  let best := close.foldl (fun best c =>
    match best with
    | none => some c
    | some b => if b.isBetter c then some c else some b) none
  best.map Candidate.name

end Stencil.Text.Likeness
