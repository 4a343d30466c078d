import Docsig.Proofs.Result
import Docsig.Text.Base64

/-!
Base64 texts.

* `decode_eq_notAscii`: a character beyond ASCII is found before anything else, and nothing
  else is taken for one.
* `decode_encode`: the text of some bytes is read as these bytes. Each character of a group has
  its own step (`decodeFrom_first` to `decodeFrom_fourth`), and the last group may end early.
-/

namespace Docsig.Text.Base64

/-- Inside a group, every character is ASCII already. -/
theorem decodeFrom_fault (g : Group) (bytes : List UInt8) (cs : List Char) :
    FailsOnly (· ≠ .notAscii) (decodeFrom g bytes cs) := by
  induction cs generalizing g bytes with
  | nil =>
      rw [decodeFrom]
      split
      · exact .ok _
      · exact .error nofun
      · exact .error nofun
  | cons c cs ih =>
      rw [decodeFrom]
      split
      · -- Padding.
        split
        · split
          · split
            · exact .ok _
            · exact .error nofun
          · exact ih _ _
        · exact ih _ _
      · split
        · exact .error nofun
        · refine .guard nofun fun _ => ?_
          split <;> exact ih _ _

/-- **A text is refused for a character beyond ASCII exactly if it has one.** -/
theorem decode_eq_notAscii {cs : List Char} :
    decode cs = .error .notAscii ↔ ∃ c ∈ cs, 128 ≤ c.toNat := by
  have beyond : (cs.any fun c => 128 ≤ c.toNat) = true ↔ ∃ c ∈ cs, 128 ≤ c.toNat := by
    simp only [List.any_eq_true, decide_eq_true_eq]
  rw [← beyond, decode]
  split
  · rename_i found
    simp [found]
  · rename_i ascii
    refine iff_of_false ?_ ascii
    split
    · exact nofun
    · exact fun h => decodeFrom_fault _ _ _ _ h rfl

/-! ### What is written -/

theorem value?_digitChar : ∀ n < 64, value? (digitChar n) = some n := by
  decide

theorem digitChar_ascii : ∀ n < 64, digitChar n ≠ '=' ∧ (digitChar n).toNat < 128 := by
  decide

/-- Base64 text is ASCII. -/
theorem encode_ascii (data : List UInt8) : ∀ c ∈ encode data, c.toNat < 128 := by
  have digit (n : Nat) (h : n < 64) : (digitChar n).toNat < 128 := (digitChar_ascii n h).2
  have pad : '='.toNat < 128 := by decide
  fun_induction encode data with
  | case1 => exact nofun
  | case2 a n =>
      have byte := a.toNat_lt
      simp only [List.forall_mem_cons, List.not_mem_nil, false_imp_iff, implies_true, and_true]
      exact ⟨digit _ (by omega), digit _ (by omega), pad, pad⟩
  | case3 a b n =>
      have byte := a.toNat_lt
      have byte' := b.toNat_lt
      simp only [List.forall_mem_cons, List.not_mem_nil, false_imp_iff, implies_true, and_true]
      exact ⟨digit _ (by omega), digit _ (by omega), digit _ (by omega), pad⟩
  | case4 a b c rest n ih =>
      have byte := a.toNat_lt
      have byte' := b.toNat_lt
      have byte'' := c.toNat_lt
      simp only [List.forall_mem_cons]
      exact ⟨digit _ (by omega), digit _ (by omega), digit _ (by omega), digit _ (by omega), ih⟩

/-- A text does not start with padding. -/
theorem head?_encode (data : List UInt8) : (encode data).head? ≠ some '=' := by
  have digit (n : Nat) (h : n < 64) : some (digitChar n) ≠ some '=' := fun eq =>
    (digitChar_ascii n h).1 (Option.some.inj eq)
  fun_cases encode data with
  | case1 => exact nofun
  | case2 a n =>
      have byte := a.toNat_lt
      exact digit _ (by omega)
  | case3 a b n =>
      have byte := a.toNat_lt
      have byte' := b.toNat_lt
      exact digit _ (by omega)
  | case4 a b c rest n =>
      have byte := a.toNat_lt
      have byte' := b.toNat_lt
      have byte'' := c.toNat_lt
      exact digit _ (by omega)

/-! ### Reading back -/

variable {n filled bits pads : Nat} {done : List UInt8} {cs : List Char}

/-- The first character of a group starts a byte. -/
theorem decodeFrom_first (h : n < 64) : decodeFrom ⟨0, bits, pads, false⟩ done (digitChar n :: cs) =
    decodeFrom ⟨1, n, 0, false⟩ done cs := by
  rw [decodeFrom, if_neg (digitChar_ascii n h).1, value?_digitChar n h]
  rfl

/-- The second one ends the first byte. -/
theorem decodeFrom_second (h : n < 64) :
    decodeFrom ⟨1, bits, pads, false⟩ done (digitChar n :: cs) =
      decodeFrom ⟨2, n % 16, 0, false⟩ (UInt8.ofNat (bits * 4 + n / 16) :: done) cs := by
  rw [decodeFrom, if_neg (digitChar_ascii n h).1, value?_digitChar n h]
  rfl

/-- The third one ends the second byte. -/
theorem decodeFrom_third (h : n < 64) :
    decodeFrom ⟨2, bits, pads, false⟩ done (digitChar n :: cs) =
      decodeFrom ⟨3, n % 4, 0, false⟩ (UInt8.ofNat (bits * 16 + n / 4) :: done) cs := by
  rw [decodeFrom, if_neg (digitChar_ascii n h).1, value?_digitChar n h]
  rfl

/-- The last one ends the group. -/
theorem decodeFrom_fourth (h : n < 64) :
    decodeFrom ⟨3, bits, pads, false⟩ done (digitChar n :: cs) =
      decodeFrom ⟨0, 0, 0, false⟩ (UInt8.ofNat (bits * 64 + n) :: done) cs := by
  rw [decodeFrom, if_neg (digitChar_ascii n h).1, value?_digitChar n h]
  rfl

theorem ofNat_eq {b : UInt8} (h : n = b.toNat) : UInt8.ofNat n = b := by
  rw [h, UInt8.ofNat_toNat]

/-- What is written is read as the bytes it was written for, behind those read before. -/
theorem decodeFrom_encode : ∀ data done : List UInt8,
    decodeFrom ⟨0, 0, 0, false⟩ done (encode data) = .ok (done.reverse ++ data)
  -- by groups of three bytes; the last group may have one or two
  | [], done => by simp [encode, decodeFrom]
  | [a], done => by
      have byte := a.toNat_lt
      rw [encode, decodeFrom_first (by omega), decodeFrom_second (by omega),
        ofNat_eq (b := a) (by omega)]
      simp [decodeFrom]
  | [a, b], done => by
      have byte := a.toNat_lt
      have byte' := b.toNat_lt
      rw [encode, decodeFrom_first (by omega), decodeFrom_second (by omega),
        decodeFrom_third (by omega), ofNat_eq (b := b) (by omega), ofNat_eq (b := a) (by omega)]
      simp [decodeFrom]
  | a :: b :: c :: rest, done => by
      have byte := a.toNat_lt
      have byte' := b.toNat_lt
      have byte'' := c.toNat_lt
      rw [encode, decodeFrom_first (by omega), decodeFrom_second (by omega),
        decodeFrom_third (by omega), decodeFrom_fourth (by omega), ofNat_eq (b := c) (by omega),
        ofNat_eq (b := b) (by omega), ofNat_eq (b := a) (by omega), decodeFrom_encode rest]
      simp

/-- **What is written is read back**, whatever the number of bytes. -/
theorem decode_encode (data : List UInt8) : decode (encode data) = .ok data := by
  rw [decode, if_neg, if_neg (head?_encode data)]
  · exact decodeFrom_encode data []
  · simpa using encode_ascii data

end Docsig.Text.Base64
