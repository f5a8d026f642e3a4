/-! # Text as code units

A text as the sequence of its UTF-8 bytes and of its UTF-16 units.  Hashes and orders are
defined on such units, not on characters.

* `utf8`: one to four bytes per character;
* `utf16`: one unit per character up to U+FFFF, a surrogate pair above.
-/

namespace SegmentCatalog.Text

def utf8 (cs : List Char) : List UInt8 := cs.flatMap String.utf8EncodeChar

/-- The UTF-16 units of a character. -/
def utf16Char (c : Char) : List UInt16 :=
  let n := c.toNat
  if n < 0x10000 then [.ofNat n]
  else [.ofNat (0xd800 + (n - 0x10000) / 0x400), .ofNat (0xdc00 + (n - 0x10000) % 0x400)]

def utf16 (cs : List Char) : List UInt16 := cs.flatMap utf16Char

@[simp] theorem utf8_nil : utf8 [] = [] := rfl
@[simp] theorem utf16_nil : utf16 [] = [] := rfl

@[simp] theorem utf8_cons (c : Char) (cs : List Char) :
    utf8 (c :: cs) = String.utf8EncodeChar c ++ utf8 cs := rfl

@[simp] theorem utf16_cons (c : Char) (cs : List Char) :
    utf16 (c :: cs) = utf16Char c ++ utf16 cs := rfl

end SegmentCatalog.Text
