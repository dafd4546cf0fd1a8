/-! The character classes of scripts. -/
namespace CodeGraph.Script

/-- The blanks of the narrow class: tab to carriage return, and space. -/
def isBlank (c : Char) : Bool := ('\t' ≤ c && c ≤ '\r') || c == ' '

/-- The separators of Unicode other than lines and paragraphs, and the space-like marks that
scripts treat alike. -/
def isWideBlank (c : Char) : Bool :=
  let n := c.val
  n == 0xA0 || n == 0x1680 || (0x2000 ≤ n && n ≤ 0x200B) || n == 0x2028 || n == 0x2029 ||
    n == 0x202F || n == 0x205F || n == 0x2060 || n == 0x3000 || n == 0xFEFF

/-- What may stand between any two tokens. -/
def isSpace (c : Char) : Bool := isBlank c || isWideBlank c

/-- The line ends that also end a comment. -/
def isLineEnd (c : Char) : Bool := c == '\n' || c == '\u2028' || c == '\u2029'

def isHexDigit (c : Char) : Bool :=
  c.isDigit || ('a' ≤ c && c ≤ 'f') || ('A' ≤ c && c ≤ 'F')

/-- The characters that end a name. -/
def isNameBreak (c : Char) : Bool :=
  c.val < 0x20 || isSpace c || ":;`\"'@#.,|^&<=>+-*/\\%?!~()[]\x7b\x7d".toList.contains c

def isNamePart (c : Char) : Bool := !isNameBreak c

def isNameStart (c : Char) : Bool := !isNameBreak c && !c.isDigit

end CodeGraph.Script
