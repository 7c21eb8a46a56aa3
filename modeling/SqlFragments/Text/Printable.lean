import SqlFragments.Text.CharRanges

/-!
# Characters that are shown as they are

Control and format characters, separators other than the space, and the private use areas are not
shown as they are in quoted text.

* `hiddenRanges`: the ranges of such characters.
* `isPrintable`: all other characters.
-/

namespace SqlFragments

/-- Control and format characters, separators except the space, and private use. -/
def hiddenRanges : CharRanges :=
  [
    (0x0, 0x1f), (0x7f, 0xa0), (0xad, 0xad), (0x600, 0x605), (0x61c, 0x61c), (0x6dd, 0x6dd),
    (0x70f, 0x70f), (0x890, 0x891), (0x8e2, 0x8e2), (0x1680, 0x1680), (0x180e, 0x180e),
    (0x2000, 0x200f), (0x2028, 0x202f), (0x205f, 0x2064), (0x2066, 0x206f), (0x3000, 0x3000),
    (0xe000, 0xf8ff), (0xfeff, 0xfeff), (0xfff9, 0xfffb), (0x110bd, 0x110bd), (0x110cd, 0x110cd),
    (0x13430, 0x13438), (0x1bca0, 0x1bca3), (0x1d173, 0x1d17a), (0xe0001, 0xe0001),
    (0xe0020, 0xe007f), (0xf0000, 0xffffd), (0x100000, 0x10fffd)
  ]

def isPrintable (c : Char) : Bool := !hiddenRanges.contains c

end SqlFragments
