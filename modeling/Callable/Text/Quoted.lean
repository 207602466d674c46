/-! Quoted texts: a text between double quotes in which a quote, a backslash and whatever has no
visible form of its own is escaped. The single quote stands for itself. -/

namespace Callable.Text

/-- Characters without a visible form of their own: controls, separators other than the plain
space, format characters, combining marks, private use and noncharacters. -/
def isInvisible (c : Char) : Bool :=
  let n := c.toNat
  n < 0x20 || (0x7F ≤ n && n ≤ 0xA0) || n == 0xAD || (0x300 ≤ n && n ≤ 0x36F) ||
  (0x483 ≤ n && n ≤ 0x489) || (0x591 ≤ n && n ≤ 0x5BD) || (0x600 ≤ n && n ≤ 0x605) ||
  (0x610 ≤ n && n ≤ 0x61A) || n == 0x61C || (0x64B ≤ n && n ≤ 0x65F) || n == 0x1680 ||
  n == 0x180E || (0x1AB0 ≤ n && n ≤ 0x1ACE) || (0x1DC0 ≤ n && n ≤ 0x1DFF) ||
  (0x2000 ≤ n && n ≤ 0x200F) || (0x2028 ≤ n && n ≤ 0x202F) || (0x205F ≤ n && n ≤ 0x206F) ||
  (0x20D0 ≤ n && n ≤ 0x20F0) || n == 0x3000 || (0x302A ≤ n && n ≤ 0x302F) ||
  n == 0x3099 || n == 0x309A || (0xE000 ≤ n && n ≤ 0xF8FF) || (0xFDD0 ≤ n && n ≤ 0xFDEF) ||
  (0xFE00 ≤ n && n ≤ 0xFE0F) || (0xFE20 ≤ n && n ≤ 0xFE2F) || n == 0xFEFF ||
  (0xFFF0 ≤ n && n ≤ 0xFFFB) || n % 0x10000 == 0xFFFE || n % 0x10000 == 0xFFFF ||
  0xE0000 ≤ n

def codeEscape (c : Char) : List Char :=
  ['\\', 'u', '\x7b'] ++ Nat.toDigits 16 c.toNat ++ ['\x7d']

def escape (c : Char) : List Char :=
  if c = '"' then ['\\', '"']
  else if c = '\\' then ['\\', '\\']
  else if c = '\n' then ['\\', 'n']
  else if c = '\r' then ['\\', 'r']
  else if c = '\t' then ['\\', 't']
  else if c = '\x00' then ['\\', '0']
  else if isInvisible c then codeEscape c
  else [c]

def quote (s : String) : String :=
  String.ofList ('"' :: s.toList.flatMap escape ++ ['"'])

end Callable.Text
