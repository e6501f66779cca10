/-!
# Romanization

A plain-ASCII spelling for characters outside ASCII, used to make names out of titles in any
script. ASCII characters spell themselves, except for the delete character, and a character
without a spelling becomes a question mark in brackets, which separates words.

The table has some of the characters of some scripts. A compilation takes the romanization as one of
its conventions, so that what is known about names holds for a full table as well.

## Main definitions

* `Romanization.table`: the spellings by code point.
* `Romanization.spell`: the spelling of a character.
-/
namespace ApiGateway.Romanization

/-- The spellings of other characters. The delete character and signs that only modify their
neighbours have an empty spelling. -/
def table : List (Nat × String) :=
  [(0x007f, ""), (0x00a0, " "), (0x00b2, "2"), (0x00b5, "u"), (0x00bd, "1/2"), (0x00c6, "AE"),
   (0x00d1, "N"), (0x00d3, "O"), (0x00dc, "U"), (0x00df, "ss"), (0x00e7, "c"), (0x00e9, "e"),
   (0x00ef, "i"), (0x00f0, "d"), (0x00f1, "n"), (0x00fa, "u"), (0x00fc, "u"), (0x00fe, "th"),
   (0x011f, "g"), (0x0130, "I"), (0x0131, "i"), (0x0141, "L"), (0x0153, "oe"), (0x0179, "Z"),
   (0x0301, ""), (0x03a9, "O"), (0x03b1, "a"), (0x03bc, "m"), (0x0416, "Zh"), (0x0448, "sh"),
   (0x0449, "shch"), (0x044a, "'"), (0x044c, "'"), (0x044f, "ia"), (0x05d5, "v"), (0x05dc, "l"),
   (0x05dd, "m"), (0x05e9, "sh"), (0x0639, "`"), (0x0645, "m"), (0x0663, "3"), (0x0967, "1"),
   (0x2003, " "), (0x200b, " "), (0x2014, "--"), (0x201c, "\""), (0x201d, "\""), (0x2026, "..."),
   (0x20ac, "EUR"), (0x2122, "tm"), (0x2167, "VIII"), (0x2460, "1"), (0x2603, "snowman "),
   (0x30a2, "a"), (0x30b9, "su"), (0x30c3, "tu"), (0x30c6, "te"), (0x30c8, "to"), (0x30da, "pe"),
   (0x30fb, "-"), (0x30fc, ""), (0x4eac, "Jing "), (0x4f60, "Ni "), (0x5220, "Shan "),
   (0x5317, "Bei "), (0x597d, "Hao "), (0x65e5, "Ri "), (0x672c, "Ben "), (0x8a9e, "Yu "),
   (0x9664, "Chu "), (0xb155, "nyeong"), (0xc548, "an"), (0xfb01, "fi"), (0xfeff, ""),
   (0xff11, "1"), (0xff12, "2"), (0xff13, "3"), (0xff21, "A"), (0xff22, "B"), (0xff23, "C"),
   (0xff45, "e"), (0xff5e, "~"), (0x1f436, "dog "), (0x1f600, "grinning ")]

/-- The spelling of a character. -/
def spell (c : Char) : List Char :=
  if c.toNat < 127 then [c]
  else ((table.lookup c.toNat).getD "[?]").toList

/-- ASCII characters before the delete character are spelled as they stand. -/
theorem spell_of_ascii {c : Char} (h : c.toNat < 127) : spell c = [c] := by simp [spell, h]

end ApiGateway.Romanization
