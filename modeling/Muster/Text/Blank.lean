/-!
# Blank characters

The characters with the Unicode property White_Space, and trimming by them. Configuration
values and command-line addresses lose blanks at both ends; nothing else is trimmed.

`trim` is the trimming in `get`, `resolve_cluster`, `parse_server_addr` and `parse_address` of the
program.
-/
namespace Muster.Text

/-- The ranges of White_Space, ascending. -/
def blankRanges : List (Nat × Nat) :=
  [(0x09, 0x0d), (0x20, 0x20), (0x85, 0x85), (0xa0, 0xa0), (0x1680, 0x1680), (0x2000, 0x200a),
   (0x2028, 0x2029), (0x202f, 0x202f), (0x205f, 0x205f), (0x3000, 0x3000)]

def isBlank (c : Char) : Bool :=
  blankRanges.any fun r => r.1 ≤ c.toNat && c.toNat ≤ r.2

/-- Drops the characters satisfying `p` at the end of a list. -/
def dropWhileEnd (p : Char → Bool) (cs : List Char) : List Char :=
  (cs.reverse.dropWhile p).reverse

/-- Removes blanks at both ends. -/
def trim (s : String) : String :=
  String.ofList (dropWhileEnd isBlank (s.toList.dropWhile isBlank))

end Muster.Text
