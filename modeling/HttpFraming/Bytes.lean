/-!
# Byte strings

Wire data is a list of bytes. This module holds the vocabulary that the rest of the
library reads it with: letters without case, surrounding blanks, comma separated
elements, the sets of bytes from which the parts of a message are built, numerals, and
well-formed UTF-8.
-/

namespace HttpFraming

abbrev Bytes := List UInt8

namespace Bytes

def ascii (text : String) : Bytes :=
  text.toList.map fun c => c.toNat.toUInt8

def toText (bytes : Bytes) : String :=
  String.ofList (bytes.map fun b => Char.ofNat b.toNat)

def tab : UInt8 := 9

def lf : UInt8 := 10

def cr : UInt8 := 13

def space : UInt8 := 32

def comma : UInt8 := 44

/-- The line end that is written; a lone line feed is only accepted in heads. -/
def crlf : Bytes := [cr, lf]

def lower (b : UInt8) : UInt8 :=
  if 65 ≤ b ∧ b ≤ 90 then b + 32 else b

def sameLetters (a b : Bytes) : Bool :=
  a.map lower == b.map lower

def isBlank (b : UInt8) : Bool :=
  b == space || b == tab

def trim (bytes : Bytes) : Bytes :=
  ((bytes.dropWhile isBlank).reverse.dropWhile isBlank).reverse

theorem trim_all {p : UInt8 → Bool} {bytes : Bytes} (h : bytes.all p = true) :
    (trim bytes).all p = true := by
  have hdrop : ∀ {l : Bytes}, l.all p = true → (l.dropWhile isBlank).all p = true := by
    intro l hl
    rw [List.all_eq_true] at hl ⊢
    exact fun b hb => hl b ((List.dropWhile_sublist _).subset hb)
  unfold trim
  rw [List.all_reverse]
  apply hdrop
  rw [List.all_reverse]
  exact hdrop h

/-- The comma separated elements of a list value, each without surrounding blanks. -/
def elements (bytes : Bytes) : List Bytes :=
  (bytes.splitOn comma).map trim

/-! ## Byte classes -/

def isDigit (b : UInt8) : Bool :=
  48 ≤ b && b ≤ 57

def isLetter (b : UInt8) : Bool :=
  (65 ≤ b && b ≤ 90) || (97 ≤ b && b ≤ 122)

def tokenMarks : Bytes :=
  ascii "!#$%&'*+-.^_`|~"

def isToken (b : UInt8) : Bool :=
  isLetter b || isDigit b || tokenMarks.contains b

/-- Bytes of field values: anything but controls, and the tab. -/
def isFieldByte (b : UInt8) : Bool :=
  b == tab || (32 ≤ b && b != 127)

def isPlain (b : UInt8) : Bool :=
  b == tab || (32 ≤ b && b ≤ 126)

def isTargetByte (b : UInt8) : Bool :=
  33 ≤ b && b != 127

end Bytes

/-! ## Numerals

Numbers in positional notation, most significant digit first. The digits above nine are
letters: capitals when written, either case when read. -/

namespace Numeral

/-- Lengths and sizes are 64-bit words: every valid one is below this bound. -/
def wordBound : Nat :=
  Nat.pow 2 64

def digit (d : Nat) : UInt8 :=
  if d < 10 then (48 + d).toUInt8 else (55 + d).toUInt8

def digit? (base : Nat) (b : UInt8) : Option Nat :=
  let value :=
    if 48 ≤ b ∧ b ≤ 57 then b.toNat - 48
    else if 65 ≤ b ∧ b ≤ 70 then b.toNat - 55
    else if 97 ≤ b ∧ b ≤ 102 then b.toNat - 87
    else base
  if value < base then some value else none

theorem digit?_digit {base d : Nat} (hbase : base ≤ 16) (hd : d < base) :
    digit? base (digit d) = some d := by
  have hall : ∀ b : Fin 17, ∀ e : Fin b.val, digit? b.val (digit e.val) = some e.val := by
    decide
  exact hall ⟨base, by omega⟩ ⟨d, hd⟩

def push? (base : Nat) (acc : Nat) (b : UInt8) : Option Nat :=
  (digit? base b).map fun d => acc * base + d

/-- The number a non-empty run of digits denotes; anything else denotes none. -/
def read? (base : Nat) (bytes : Bytes) : Option Nat :=
  if bytes.isEmpty then none else bytes.foldlM (push? base) 0

/-- The digits of a number, without leading zeros; zero is one digit. -/
def write (base n : Nat) : Bytes :=
  if n < base ∨ base < 2 then [digit n]
  else write base (n / base) ++ [digit (n % base)]
termination_by n
decreasing_by exact Nat.div_lt_self (by omega) (by omega)

theorem write_ne_nil (base n : Nat) : write base n ≠ [] := by
  unfold write
  split <;> simp

theorem foldlM_write {base : Nat} (h2 : 2 ≤ base) (h16 : base ≤ 16) (n : Nat) :
    (write base n).foldlM (push? base) 0 = some n := by
  fun_induction write base n with
  | case1 n h =>
      have hn : n < base := by omega
      simp [push?, digit?_digit h16 hn]
  | case2 n h ih =>
      have hmod : n % base < base := Nat.mod_lt _ (by omega)
      simp only [List.foldlM_append, ih]
      simp [push?, digit?_digit h16 hmod, Nat.div_add_mod']

theorem read?_write {base : Nat} (h2 : 2 ≤ base) (h16 : base ≤ 16) (n : Nat) :
    read? base (write base n) = some n := by
  have hne : (write base n).isEmpty = false := by
    simpa using write_ne_nil base n
  simp [read?, hne, foldlM_write h2 h16]

theorem write_all {base : Nat} (h2 : 2 ≤ base) {p : UInt8 → Bool}
    (hp : ∀ d, d < base → p (digit d) = true) (n : Nat) :
    (write base n).all p = true := by
  fun_induction write base n with
  | case1 n h =>
      simpa using hp n (by omega)
  | case2 n h ih =>
      simp only [List.all_append, ih, Bool.true_and]
      simpa using hp (n % base) (Nat.mod_lt _ (by omega))

end Numeral

/-! ## Well-formed UTF-8

A byte sequence is well formed when it is a concatenation of the encodings of
Unicode scalar values: no overlong forms, no surrogates, nothing above U+10FFFF. -/

namespace Utf8

/-- The ranges in which the bytes after a lead byte must lie, in order. -/
def continuation? (lead : UInt8) : Option (List (UInt8 × UInt8)) :=
  if lead ≤ 0x7F then some []
  else if 0xC2 ≤ lead ∧ lead ≤ 0xDF then some [(0x80, 0xBF)]
  else if lead = 0xE0 then some [(0xA0, 0xBF), (0x80, 0xBF)]
  else if lead = 0xED then some [(0x80, 0x9F), (0x80, 0xBF)]
  else if 0xE1 ≤ lead ∧ lead ≤ 0xEF then some [(0x80, 0xBF), (0x80, 0xBF)]
  else if lead = 0xF0 then some [(0x90, 0xBF), (0x80, 0xBF), (0x80, 0xBF)]
  else if 0xF1 ≤ lead ∧ lead ≤ 0xF3 then some [(0x80, 0xBF), (0x80, 0xBF), (0x80, 0xBF)]
  else if lead = 0xF4 then some [(0x80, 0x8F), (0x80, 0xBF), (0x80, 0xBF)]
  else none

def step (owed : List (UInt8 × UInt8)) (b : UInt8) : Option (List (UInt8 × UInt8)) :=
  match owed with
  | [] => continuation? b
  | (low, high) :: more => if low ≤ b ∧ b ≤ high then some more else none

def isWellFormed (bytes : Bytes) : Bool :=
  bytes.foldlM step [] == some []

theorem isWellFormed_of_ascii {bytes : Bytes} (h : ∀ b ∈ bytes, b ≤ 0x7F) :
    isWellFormed bytes = true := by
  have hfold : bytes.foldlM step [] = some [] := by
    induction bytes with
    | nil => rfl
    | cons b rest ih =>
        have hb : b ≤ 0x7F := h b (by simp)
        simp only [List.foldlM_cons, step, continuation?, if_pos hb]
        exact ih fun c hc => h c (by simp [hc])
  simp [isWellFormed, hfold]

end Utf8

end HttpFraming
