/-! # Letter case of names

Names and keywords are stored in any mixture of cases.  Keywords are looked up in capitals
after a full upper-casing, in which one letter may become several.

* `capitals` is the upper-case form of a character, as far as it is written in ASCII;
* `upper` is that of a text;
* `lower` turns the capitals A to Z into small letters.

Only ten characters beyond a to z have a capital form in ASCII.  Every other character is
kept: whatever its capital form is, it is outside ASCII, so it never makes a text equal to
an ASCII keyword.
-/

namespace SegmentCatalog.Text

/-- The capital form of `c` if it lies in ASCII, else `c` itself. -/
def capitals (c : Char) : List Char :=
  match c.toNat with
  | 0xdf => ['S', 'S']       -- sharp s
  | 0x131 => ['I']           -- dotless i
  | 0x17f => ['S']           -- long s
  | 0xfb00 => ['F', 'F']     -- ligatures
  | 0xfb01 => ['F', 'I']
  | 0xfb02 => ['F', 'L']
  | 0xfb03 => ['F', 'F', 'I']
  | 0xfb04 => ['F', 'F', 'L']
  | 0xfb05 => ['S', 'T']
  | 0xfb06 => ['S', 'T']
  | _ => [c.toUpper]

def upper (cs : List Char) : List Char := cs.flatMap capitals

/-- Small letters for A to Z.  One other character, the Kelvin sign, has an ASCII small
    letter, k, which no keyword compared this way contains. -/
def lower (cs : List Char) : List Char := cs.map Char.toLower

@[simp] theorem upper_nil : upper [] = [] := rfl

@[simp] theorem upper_cons (c : Char) (cs : List Char) :
    upper (c :: cs) = capitals c ++ upper cs := rfl

end SegmentCatalog.Text
