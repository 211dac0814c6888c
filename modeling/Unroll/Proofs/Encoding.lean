import Mathlib.Tactic.SplitIfs
import Unroll.Files.Content

/-!
# Texts as bytes

What is written as UTF-8 is read as it was, but for its line ends.

* `Text.Utf8.front_encodeChar` — the bytes of a character begin with it, whatever follows them;
* `Text.Utf8.decode_encode` — the bytes of a text are read as the text;
* `Text.unifyLineEnds_cons`, `Text.unifyLineEnds_return` — what making line ends one of a kind does
  to the first character.
-/

namespace Unroll

namespace Text.Utf8

/-! ### Bytes by their bits -/

theorem tailLength?_eq (a : UInt8) :
    tailLength? a =
      if a.toNat ≤ 0x7F then some 0
      else if 0xC2 ≤ a.toNat ∧ a.toNat ≤ 0xDF then some 1
      else if 0xE0 ≤ a.toNat ∧ a.toNat ≤ 0xEF then some 2
      else if 0xF0 ≤ a.toNat ∧ a.toNat ≤ 0xF4 then some 3
      else none := by
  simp [tailLength?, UInt8.le_iff_toNat_le]

/-- The continuation byte that carries six bits. -/
def Carries (b : UInt8) (bits : Nat) : Prop := bits < 0x40 ∧ b.toNat = 0x80 + bits

theorem carries_ofNat (n : Nat) : Carries (UInt8.ofNat (n % 64 + 0x80)) (n % 64) := by
  refine ⟨Nat.mod_lt n (by omega), ?_⟩
  rw [UInt8.toNat_ofNat']
  omega

variable {a b c d : UInt8} {x y z w : Nat}

theorem Carries.isTail (h : Carries b y) : isTail b = true := by
  obtain ⟨hy, hb⟩ := h
  simp only [Utf8.isTail, UInt8.le_iff_toNat_le, hb, Bool.and_eq_true, decide_eq_true_eq,
    UInt8.reduceToNat]
  omega

/-- A continuation byte may be the second one, unless with the first byte the character would have
fewer bytes, or be half a surrogate pair, or beyond the last one. -/
theorem Carries.isSecond (h : Carries b y) (hE0 : a.toNat = 0xE0 → 0x20 ≤ y)
    (hED : a.toNat = 0xED → y < 0x20) (hF0 : a.toNat = 0xF0 → 0x10 ≤ y)
    (hF4 : a.toNat = 0xF4 → y < 0x10) : isSecond a b = true := by
  have htail := h.isTail
  obtain ⟨hy, hb⟩ := h
  simp only [Utf8.isSecond, UInt8.le_iff_toNat_le, ← UInt8.toNat_inj, hb, UInt8.reduceToNat]
  split_ifs with h₁ h₂ h₃ h₄
  all_goals grind

theorem Carries.push (h : Carries b y) (bits : Nat) : push bits b = 64 * bits + y := by
  have hbits : b.toNat - 0x80 = y := by
    rw [h.2]
    omega
  rw [← hbits]
  rfl

/-! ### Characters by their bytes -/

variable {rest : List UInt8}

theorem front_one (ha : a.toNat < 0x80) : front a rest = .char (Char.ofNat a.toNat) rest := by
  have hlength : tailLength? a = some 0 := by
    rw [tailLength?_eq, if_pos (by omega)]
  simp only [front, hlength]

theorem front_two (hx : 2 ≤ x ∧ x < 0x20) (ha : a.toNat = 0xC0 + x) (hb : Carries b y) :
    front a (b :: rest) = .char (Char.ofNat (64 * x + y)) rest := by
  have hlength : tailLength? a = some 1 := by
    rw [tailLength?_eq, if_neg (by omega), if_pos (by omega)]
  have hsecond : isSecond a b = true := hb.isSecond (by omega) (by omega) (by omega) (by omega)
  simp [front, hlength, hsecond, hb.push, ha]

theorem front_three (hx : x < 0x10) (ha : a.toNat = 0xE0 + x) (hb : Carries b y)
    (hc : Carries c z) (hfirst : x = 0 → 0x20 ≤ y) (hsurrogate : x = 0xD → y < 0x20) :
    front a (b :: c :: rest) = .char (Char.ofNat (64 * (64 * x + y) + z)) rest := by
  have hlength : tailLength? a = some 2 := by
    rw [tailLength?_eq, if_neg (by omega), if_neg (by omega), if_pos (by omega)]
  have hsecond : isSecond a b = true := hb.isSecond (by omega) (by omega) (by omega) (by omega)
  simp [front, hlength, hsecond, hc.isTail, hb.push, hc.push, ha]

theorem front_four (hx : x < 5) (ha : a.toNat = 0xF0 + x) (hb : Carries b y) (hc : Carries c z)
    (hd : Carries d w) (hfirst : x = 0 → 0x10 ≤ y) (hlast : x = 4 → y < 0x10) :
    front a (b :: c :: d :: rest) =
      .char (Char.ofNat (64 * (64 * (64 * x + y) + z) + w)) rest := by
  have hlength : tailLength? a = some 3 := by
    rw [tailLength?_eq, if_neg (by omega), if_neg (by omega), if_neg (by omega), if_pos (by omega)]
  have hsecond : isSecond a b = true := hb.isSecond (by omega) (by omega) (by omega) (by omega)
  simp [front, hlength, hsecond, hc.isTail, hd.isTail, hb.push, hc.push, hd.push, ha]

/-- The bytes of a character begin with it, whatever follows them. -/
theorem front_encodeChar (c : Char) (rest : List UInt8) :
    ∃ a tail, encodeChar c = a :: tail ∧ front a (tail ++ rest) = .char c rest := by
  have hvalid : c.toNat < 0xD800 ∨ 0xDFFF < c.toNat ∧ c.toNat < 0x110000 := c.valid
  have hbyte : ∀ n < 0x100, (UInt8.ofNat n).toNat = n := by
    intro n hn
    rw [UInt8.toNat_ofNat', Nat.mod_eq_of_lt hn]
  have hchar : ∀ n, n = c.toNat → Char.ofNat n = c := by
    rintro n rfl
    exact Char.ofNat_toNat c
  have hbytes : encodeChar c =
      if c.toNat ≤ 0x7F then [UInt8.ofNat c.toNat]
      else if c.toNat ≤ 0x7FF then
        [UInt8.ofNat (c.toNat / 64 % 32 + 0xC0), UInt8.ofNat (c.toNat % 64 + 0x80)]
      else if c.toNat ≤ 0xFFFF then
        [UInt8.ofNat (c.toNat / 4096 % 16 + 0xE0), UInt8.ofNat (c.toNat / 64 % 64 + 0x80),
          UInt8.ofNat (c.toNat % 64 + 0x80)]
      else
        [UInt8.ofNat (c.toNat / 262144 % 8 + 0xF0), UInt8.ofNat (c.toNat / 4096 % 64 + 0x80),
          UInt8.ofNat (c.toNat / 64 % 64 + 0x80), UInt8.ofNat (c.toNat % 64 + 0x80)] := rfl
  by_cases h₁ : c.toNat ≤ 0x7F
  · rw [if_pos h₁] at hbytes
    have ha := hbyte c.toNat (by omega)
    refine ⟨_, _, hbytes, ?_⟩
    rw [List.nil_append, front_one (by omega), hchar _ ha]
  rw [if_neg h₁] at hbytes
  by_cases h₂ : c.toNat ≤ 0x7FF
  · rw [if_pos h₂] at hbytes
    have ha := hbyte (c.toNat / 64 % 32 + 0xC0) (by omega)
    refine ⟨_, _, hbytes, ?_⟩
    rw [List.singleton_append, front_two (by omega) (ha.trans (Nat.add_comm _ _))
      (carries_ofNat _), hchar _ (by omega)]
  rw [if_neg h₂] at hbytes
  by_cases h₃ : c.toNat ≤ 0xFFFF
  · rw [if_pos h₃] at hbytes
    have ha := hbyte (c.toNat / 4096 % 16 + 0xE0) (by omega)
    refine ⟨_, _, hbytes, ?_⟩
    rw [List.cons_append, List.singleton_append, front_three (by omega)
      (ha.trans (Nat.add_comm _ _)) (carries_ofNat _) (carries_ofNat _) (by omega) (by omega),
      hchar _ (by omega)]
  · rw [if_neg h₃] at hbytes
    have ha := hbyte (c.toNat / 262144 % 8 + 0xF0) (by omega)
    refine ⟨_, _, hbytes, ?_⟩
    rw [List.cons_append, List.cons_append, List.singleton_append, front_four (by omega)
      (ha.trans (Nat.add_comm _ _)) (carries_ofNat _) (carries_ofNat _) (carries_ofNat _)
      (by omega) (by omega), hchar _ (by omega)]

/-! ### Texts -/

theorem decodeOnto_encode (text : List Char) {steps : Nat} (hsteps : (encode text).length ≤ steps)
    (done : List Char) (position : Nat) :
    decodeOnto done steps position (encode text) = (done.reverse ++ text, none) := by
  induction text generalizing steps done position with
  | nil => cases steps <;> simp [encode, decodeOnto]
  | cons c text ih =>
    obtain ⟨a, tail, hbytes, hfront⟩ := front_encodeChar c (encode text)
    have hcons : encode (c :: text) = a :: (tail ++ encode text) := by
      rw [encode, List.flatMap_cons, hbytes]
      rfl
    rw [hcons, List.length_cons, List.length_append] at hsteps
    obtain ⟨steps, rfl⟩ : ∃ k, steps = k + 1 := Nat.exists_eq_add_one.2 (by omega)
    rw [hcons]
    simp only [decodeOnto, hfront]
    rw [ih (by omega), List.reverse_cons, List.append_assoc, List.singleton_append]

/-- The bytes of a text are read as the text. -/
theorem decode_encode (text : List Char) : decode (encode text) = (text, none) :=
  decodeOnto_encode text (Nat.le_refl _) [] 0

end Text.Utf8

/-! ### Line ends -/

namespace Text

/-- What was done before stays in front. -/
theorem unifyOnto_append (last first text : List Char) :
    unifyOnto (last ++ first) text = first.reverse ++ unifyOnto last text := by
  fun_induction unifyOnto last text with
  -- the end
  | case1 last => rw [unifyOnto, List.reverse_append]
  -- a carriage return with its line feed
  | case2 last rest ih => exact ih
  -- a carriage return alone
  | case3 last rest hrest ih =>
    rw [unifyOnto]
    · exact ih
    · exact hrest
  -- any other character
  | case4 last c rest hpair hreturn ih =>
    rw [unifyOnto]
    · exact ih
    · exact hpair
    · exact hreturn

theorem unifyOnto_eq (done text : List Char) :
    unifyOnto done text = done.reverse ++ unifyLineEnds text :=
  unifyOnto_append [] done text

theorem unifyLineEnds_cons {c : Char} (hc : c ≠ '\r') (text : List Char) :
    unifyLineEnds (c :: text) = c :: unifyLineEnds text := by
  rw [unifyLineEnds, unifyOnto, unifyOnto_eq]
  · rfl
  · exact fun _ heq => absurd heq hc
  · exact hc

/-- A carriage return becomes a line feed, unless a line feed follows, which stays one. -/
theorem unifyLineEnds_return (text : List Char) :
    unifyLineEnds ('\r' :: text) = unifyLineEnds text ∨
      unifyLineEnds ('\r' :: text) = '\n' :: unifyLineEnds text := by
  by_cases htext : ∃ rest, text = '\n' :: rest
  · obtain ⟨rest, rfl⟩ := htext
    exact .inl rfl
  · refine .inr ?_
    rw [unifyLineEnds, unifyOnto, unifyOnto_eq]
    · rfl
    · exact fun rest heq => htext ⟨rest, heq⟩

theorem unifyLineEnds_of_not_mem {text : List Char} (h : '\r' ∉ text) :
    unifyLineEnds text = text := by
  induction text with
  | nil => rfl
  | cons c text ih =>
    obtain ⟨hc, htext⟩ := not_or.1 (mt List.mem_cons.2 h)
    rw [unifyLineEnds_cons (Ne.symm hc), ih htext]

end Text

/-- The bytes of a text are read as the text with its line ends made one of a kind. -/
theorem decodeWhole_encode (text : List Char) :
    decodeWhole (Text.Utf8.encode text) = .ok (Text.unifyLineEnds text) := by
  simp only [decodeWhole, Text.Utf8.decode_encode]

end Unroll
