import DeskCalculator.Terminal.Cluster.Table

/-!
# Clusters

A *cluster* is what a reader takes for one character: a letter with its accents, a syllable, a flag,
a picture joined from several. A text splits into clusters by the extended rules of Unicode 17.
This file belongs to the outer layer: it stands for the clusters that the line editor of a session
goes by, and no statement on the calculator rests on it.

* `ClusterClass`, `classOf` -- the part a character plays in a cluster;
* `joins` -- whether a character belongs to the cluster before it: the cluster so far is all that
  the rules look back on;
* `clusters` -- the clusters of a text.
-/

namespace DeskCalculator.Terminal

open Text (inRanges)

/-! ## 1. Classes of characters -/

/-- The part a character plays in a cluster. -/
inductive ClusterClass where
  | carriageReturn
  | lineFeed
  | control
  | extend
  /-- The joiner of pictures, which also extends what is before it. -/
  | joiner
  | spacing
  | prepend
  /-- A letter of a flag. -/
  | regional
  /-- A consonant that begins a syllable. -/
  | leading
  | vowel
  /-- A consonant that ends a syllable. -/
  | trailing
  /-- A syllable without an ending consonant. -/
  | openSyllable
  /-- A syllable with an ending consonant. -/
  | closedSyllable
  | pictographic
  | consonant
  | other
  deriving Repr, DecidableEq

/-- The class of a character by its place among syllables and their parts, which are laid out in
    blocks. -/
def syllableClass (n : Nat) : ClusterClass :=
  if 0x1100 ≤ n ∧ n ≤ 0x115f ∨ 0xa960 ≤ n ∧ n ≤ 0xa97c then .leading
  else if 0x1160 ≤ n ∧ n ≤ 0x11a7 ∨ 0xd7b0 ≤ n ∧ n ≤ 0xd7c6 ∨ n = 0x16d63 ∨
      0x16d67 ≤ n ∧ n ≤ 0x16d6a then .vowel
  else if 0x11a8 ≤ n ∧ n ≤ 0x11ff ∨ 0xd7cb ≤ n ∧ n ≤ 0xd7fb then .trailing
  else if 0xac00 ≤ n ∧ n ≤ 0xd7a3 then
    if (n - 0xac00) % 28 = 0 then .openSyllable else .closedSyllable
  else .other

/-- The class of a character. -/
def classOf (c : Char) : ClusterClass :=
  if 0x20 ≤ c.toNat ∧ c.toNat < 0x7f then .other
  else if c = '\r' then .carriageReturn
  else if c = '\n' then .lineFeed
  else if c = '\u200d' then .joiner
  else if 0x1f1e6 ≤ c.toNat ∧ c.toNat ≤ 0x1f1ff then .regional
  else if inRanges controlRanges c then .control
  else if inRanges extendRanges c then .extend
  else if inRanges spacingRanges c then .spacing
  else if inRanges prependRanges c then .prepend
  else if inRanges pictographicRanges c then .pictographic
  else if inRanges consonantRanges c then .consonant
  else syllableClass c.toNat

/-! ## 2. The rules -/

namespace ClusterClass

/-- Whether a character of the class is always a cluster by itself, the pair of line ends apart. -/
def standsAlone : ClusterClass → Bool
  | carriageReturn | lineFeed | control => true
  | _ => false

/-- Whether a character of the class always belongs to what is before it. -/
def staysBehind : ClusterClass → Bool
  | extend | joiner | spacing => true
  | _ => false

/-- Whether the parts of a syllable go on. -/
def goesOn : ClusterClass → ClusterClass → Bool
  | leading, leading | leading, vowel | leading, openSyllable | leading, closedSyllable => true
  | openSyllable, vowel | openSyllable, trailing | vowel, vowel | vowel, trailing => true
  | closedSyllable, trailing | trailing, trailing => true
  | _, _ => false

end ClusterClass

/-- A mark between the consonants of a conjunct: any that extends, the non-joiner apart. -/
def isConjunctMark (c : Char) : Bool :=
  (classOf c = .extend || classOf c = .joiner) && c ≠ '\u200c'

/-- Whether a cluster, newest character first, ends in a consonant that is bound to the next one. -/
def bindsConsonant (cluster : List Char) : Bool :=
  (cluster.takeWhile isConjunctMark).any (inRanges linkerRanges) &&
    (cluster.dropWhile isConjunctMark).head?.any (classOf · = .consonant)

/-- Whether a cluster, newest character first, ends in a picture and a joiner. -/
def bindsPicture (cluster : List Char) : Bool :=
  cluster.head?.any (classOf · = .joiner) &&
    (cluster.tail.dropWhile (classOf · = .extend)).head?.any (classOf · = .pictographic)

/-- Whether a cluster, newest character first, ends in half a flag. -/
def awaitsRegional (cluster : List Char) : Bool :=
  (cluster.takeWhile (classOf · = .regional)).length % 2 = 1

/-- Whether `c` goes with the cluster before it, whose newest character is `last` and comes before
    the `earlier` ones. -/
def joins (last : Char) (earlier : List Char) (c : Char) : Bool :=
  let before := classOf last
  let after := classOf c
  if before = .carriageReturn ∧ after = .lineFeed then true
  else if before.standsAlone || after.standsAlone then false
  else before.goesOn after || after.staysBehind || before = .prepend ||
    (after = .consonant && bindsConsonant (last :: earlier)) ||
    (after = .pictographic && bindsPicture (last :: earlier)) ||
    (after = .regional && awaitsRegional (last :: earlier))

/-! ## 3. The clusters of a text -/

/-- The clusters of `(last :: earlier).reverse ++ cs`, of which all before `cs` is one cluster or the
    beginning of one. -/
def clustersAfter (last : Char) (earlier : List Char) : List Char → List (List Char)
  | [] => [(last :: earlier).reverse]
  | c :: rest =>
    if joins last earlier c then clustersAfter c (last :: earlier) rest
    else (last :: earlier).reverse :: clustersAfter c [] rest

/-- The clusters of a text. -/
def clusters : List Char → List (List Char)
  | [] => []
  | c :: rest => clustersAfter c [] rest

end DeskCalculator.Terminal
