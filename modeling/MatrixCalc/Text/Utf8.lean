/-
**Reading UTF-8.**

A script is a file of bytes.  Well-formed sequences give their characters; where the bytes are not
well-formed, each longest run that could have started a character is read as one replacement
character, and a byte that can start none is read as one by itself.

Main definitions:

* `MatrixCalc.Text.Lead` — what the first byte of a character promises;
* `MatrixCalc.Text.lead?` — the promise of a byte;
* `MatrixCalc.Text.takeContinuation` — the bytes that keep the promise, as far as they do;
* `MatrixCalc.Text.decodeUtf8` — the characters of a sequence of bytes.
-/

set_option autoImplicit false

namespace MatrixCalc

namespace Text

/-- What the first byte of a character of several bytes promises: the bits it carries itself, how
many bytes follow, and the range of the first of these.  Later ones range from 128 to 191. -/
structure Lead where
  /-- The bits of the code point that the first byte carries. -/
  bits : Nat
  /-- How many bytes follow. -/
  count : Nat
  /-- The least second byte. -/
  least : Nat
  /-- The greatest second byte. -/
  greatest : Nat

/-- The promise of a byte above 127; `none` if it cannot start a character. -/
def lead? (b : Nat) : Option Lead :=
  if b < 0xC2 then none
  else if b < 0xE0 then some ⟨b - 0xC0, 1, 0x80, 0xBF⟩
  else if b = 0xE0 then some ⟨0, 2, 0xA0, 0xBF⟩
  else if b = 0xED then some ⟨0xD, 2, 0x80, 0x9F⟩
  else if b < 0xF0 then some ⟨b - 0xE0, 2, 0x80, 0xBF⟩
  else if b = 0xF0 then some ⟨0, 3, 0x90, 0xBF⟩
  else if b < 0xF4 then some ⟨b - 0xF0, 3, 0x80, 0xBF⟩
  else if b = 0xF4 then some ⟨4, 3, 0x80, 0x8F⟩
  else none

/-- Takes `count` bytes that go on a character whose bits so far are `bits`.  Gives the code point,
or `none` if a byte is missing or out of its range, and the bytes from there on. -/
def takeContinuation (bits : Nat) : Nat → Nat → Nat → List UInt8 → Option Nat × List UInt8
  | 0, _, _, bs => (some bits, bs)
  | _ + 1, _, _, [] => (none, [])
  | count + 1, least, greatest, b :: bs =>
      if least ≤ b.toNat ∧ b.toNat ≤ greatest then
        takeContinuation (bits * 64 + (b.toNat - 0x80)) count 0x80 0xBF bs
      else (none, b :: bs)

/-- No byte is put back behind those that were taken. -/
theorem length_takeContinuation_le (bits count least greatest : Nat) (bs : List UInt8) :
    (takeContinuation bits count least greatest bs).2.length ≤ bs.length := by
  induction count generalizing bits least greatest bs with
  | zero => simp [takeContinuation]
  | succ count ih =>
      cases bs with
      | nil => simp [takeContinuation]
      | cons b bs =>
          simp only [takeContinuation]
          split
          · exact Nat.le_succ_of_le (ih _ _ _ _)
          · simp

/-- The character that stands for bytes that are not well-formed. -/
def replacementChar : Char := '\ufffd'

/-- The characters of a sequence of bytes. -/
def decodeUtf8 : List UInt8 → List Char
  | [] => []
  | b :: bs =>
      if b.toNat < 0x80 then Char.ofNat b.toNat :: decodeUtf8 bs
      else match lead? b.toNat with
        | none => replacementChar :: decodeUtf8 bs
        | some l =>
            let taken := takeContinuation l.bits l.count l.least l.greatest bs
            (taken.1.map Char.ofNat).getD replacementChar :: decodeUtf8 taken.2
termination_by bs => bs.length
decreasing_by
  · simp
  · simp
  · exact Nat.lt_succ_of_le (length_takeContinuation_le _ _ _ _ _)

end Text

end MatrixCalc
