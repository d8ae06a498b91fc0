namespace Rostering.Text

/-! Blank characters and trimming. -/

def isBlank (c : Char) : Bool :=
  let n := c.toNat
  (0x9 ≤ n && n ≤ 0xd) || (0x1c ≤ n && n ≤ 0x20) || n == 0x85 || n == 0xa0 || n == 0x1680 ||
    (0x2000 ≤ n && n ≤ 0x200a) || n == 0x2028 || n == 0x2029 || n == 0x202f || n == 0x205f ||
    n == 0x3000

def trimStart (cs : List Char) : List Char := cs.dropWhile isBlank

def trimEnd (cs : List Char) : List Char := (cs.reverse.dropWhile isBlank).reverse

def trimList (cs : List Char) : List Char := trimEnd (trimStart cs)

def trim (s : String) : String := String.ofList (trimList s.toList)

def splitOnChar (mark : Char) : List Char → List (List Char)
  | [] => [[]]
  | c :: rest =>
      if c = mark then [] :: splitOnChar mark rest
      else
        match splitOnChar mark rest with
        | [] => [[c]]
        | piece :: pieces => (c :: piece) :: pieces

/-- The words of a text: its longest runs without a blank. -/
def words (cs : List Char) : List (List Char) :=
  (splitOnChar ' ' (cs.map fun c => if isBlank c then ' ' else c)).filter (· ≠ [])

end Rostering.Text
