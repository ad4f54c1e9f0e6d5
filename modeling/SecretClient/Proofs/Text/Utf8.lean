import Mathlib.Data.Char
import Mathlib.Data.String.Basic
import SecretClient.Text.Utf8

/-!
# UTF-8, written and read back

A character is written as a first byte, which says how many more there are, and continuing bytes with
six bits each. `Pending.Leads p n` says that the character with the number `n` is among those to which
the state `p` of the reader can still come: a first byte opens such a state, a continuing byte keeps to
it, and the last one completes the character.

* `items_encode`, `lossy_encode` : what was written is read back
* `chars?_eq_some_iff` : nothing else is read as a text
* `encode_lt_encode` : the order of texts is the order of their bytes
* `le_of_mem_encode` : the bytes of a text are as high as its characters, or above those of ASCII
-/

namespace SecretClient.Utf8

/-! ## The bytes of a character -/

/-- The continuing bytes of the character with a number, the last `k` of them. -/
def continuation : Nat → Nat → List UInt8
  | 0, _ => []
  | k + 1, n => UInt8.ofNat (n / 64 ^ k % 64 + 0x80) :: continuation k n

/-- What a first byte has above the bits of its character, by how many bytes continue it. -/
def mark : Nat → Nat
  | 0 => 0
  | 1 => 0xC0
  | 2 => 0xE0
  | _ => 0xF0

/-- How many bytes continue the character with the number `n`. -/
inductive Spans (n : Nat) : Nat → Prop
  | one : n < 0x80 → Spans n 0
  | two : 0x80 ≤ n → n < 0x800 → Spans n 1
  | three : 0x800 ≤ n → n < 0x10000 → Spans n 2
  | four : 0x10000 ≤ n → n < 0x110000 → Spans n 3

theorem toNat_ofNat_of_lt {n : Nat} (h : n < 256) : (UInt8.ofNat n).toNat = n := by
  simp [Nat.mod_eq_of_lt h]

/-- The number of a character is none of a half of a pair. -/
theorem toNat_char (c : Char) : c.toNat < 0xD800 ∨ 0xDFFF < c.toNat ∧ c.toNat < 0x110000 :=
  c.valid

theorem toNat_ofNat_char {n : Nat} (h : n < 0xD800 ∨ 0xDFFF < n ∧ n < 0x110000) :
    (Char.ofNat n).toNat = n := by
  rw [Char.ofNat, dif_pos h]
  rfl

theorem exists_spans (c : Char) : ∃ k, Spans c.toNat k := by
  have hvalid := toNat_char c
  by_cases h1 : c.toNat < 0x80
  · exact ⟨0, .one h1⟩
  · by_cases h2 : c.toNat < 0x800
    · exact ⟨1, .two (by omega) h2⟩
    · by_cases h3 : c.toNat < 0x10000
      · exact ⟨2, .three (by omega) h3⟩
      · exact ⟨3, .four (by omega) (by omega)⟩

/-- **A character is written as its first byte and the bytes that continue it.** -/
theorem utf8EncodeChar_eq {k : Nat} {c : Char} (h : Spans c.toNat k) :
    String.utf8EncodeChar c
      = UInt8.ofNat (mark k + c.toNat / 64 ^ k) :: continuation k c.toNat := by
  have hval : c.val.toNat = c.toNat := rfl
  unfold String.utf8EncodeChar
  rw [hval]
  cases h with
  | one h =>
    simp only [mark, continuation]
    rw [if_pos (by omega)]
    simp
  | two hlow hhigh =>
    simp only [mark, continuation]
    rw [if_neg (by omega), if_pos (by omega),
      show c.toNat / 64 % 32 + 192 = 0xC0 + c.toNat / 64 ^ 1 by omega]
    simp
  | three hlow hhigh =>
    simp only [mark, continuation]
    rw [if_neg (by omega), if_neg (by omega), if_pos (by omega),
      show c.toNat / 4096 % 16 + 224 = 0xE0 + c.toNat / 64 ^ 2 by omega]
    simp
  | four hlow hhigh =>
    simp only [mark, continuation]
    rw [if_neg (by omega), if_neg (by omega), if_neg (by omega),
      show c.toNat / 262144 % 8 + 240 = 0xF0 + c.toNat / 64 ^ 3 by omega]
    simp

theorem firstByte_lt {n k : Nat} (h : Spans n k) : mark k + n / 64 ^ k < 256 := by
  cases h <;> simp only [mark] <;> omega

/-! ## States of the reader -/

/-- The character with the number can still come of the state. -/
structure Pending.Leads (p : Pending) (n : Nat) : Prop where
  pos : 0 < p.due
  bits : n / 64 ^ p.due = p.bits
  low : p.low ≤ n / 64 ^ (p.due - 1) % 64 + 0x80
  high : n / 64 ^ (p.due - 1) % 64 + 0x80 ≤ p.high

theorem Pending.leads_mk {bits due low high n : Nat} :
    (Pending.mk bits due low high).Leads n ↔
      0 < due ∧ n / 64 ^ due = bits ∧ low ≤ n / 64 ^ (due - 1) % 64 + 0x80 ∧
        n / 64 ^ (due - 1) % 64 + 0x80 ≤ high := by
  constructor
  · rintro ⟨hpos, hbits, hlow, hhigh⟩
    exact ⟨hpos, hbits, hlow, hhigh⟩
  · rintro ⟨hpos, hbits, hlow, hhigh⟩
    exact ⟨hpos, hbits, hlow, hhigh⟩

/-- A first byte that stands alone is the character with its number. -/
theorem lead_eq_single {b : Nat} (h : b < 0x80) : lead b = .single (Char.ofNat b) := by
  unfold lead
  rw [if_pos h]

theorem lead_two {b : Nat} (hlow : 0xC2 ≤ b) (hhigh : b < 0xE0) :
    lead b = .opens ⟨b - 0xC0, 1, 0x80, 0xBF⟩ := by
  unfold lead
  rw [if_neg (by omega), if_neg (by omega), if_pos hhigh]

/-- A first byte of three says what the second one may be: no short form, and no half of a pair. -/
theorem lead_three {b : Nat} (hlow : 0xE0 ≤ b) (hhigh : b < 0xF0) :
    lead b = .opens ⟨b - 0xE0, 2, if b = 0xE0 then 0xA0 else 0x80,
      if b = 0xED then 0x9F else 0xBF⟩ := by
  unfold lead
  rw [if_neg (by omega), if_neg (by omega), if_neg (by omega)]
  by_cases h : b = 0xE0
  · subst h
    simp
  · by_cases h' : b = 0xED
    · subst h'
      simp
    · rw [if_neg h, if_neg h', if_pos hhigh, if_neg h, if_neg h']

/-- A first byte of four says what the second one may be: no short form, and none beyond the last
character. -/
theorem lead_four {b : Nat} (hlow : 0xF0 ≤ b) (hhigh : b < 0xF5) :
    lead b = .opens ⟨b - 0xF0, 3, if b = 0xF0 then 0x90 else 0x80,
      if b = 0xF4 then 0x8F else 0xBF⟩ := by
  unfold lead
  rw [if_neg (by omega), if_neg (by omega), if_neg (by omega), if_neg (by omega), if_neg (by omega),
    if_neg (by omega)]
  by_cases h : b = 0xF0
  · subst h
    simp
  · by_cases h' : b = 0xF4
    · subst h'
      simp
    · rw [if_neg h, if_pos (by omega), if_neg h, if_neg h']

/-- A byte begins a character of one byte, of two, of three or of four, or none. -/
theorem lead_cases (b : Nat) :
    b < 0x80 ∨ (0xC2 ≤ b ∧ b < 0xE0) ∨ (0xE0 ≤ b ∧ b < 0xF0) ∨ (0xF0 ≤ b ∧ b < 0xF5) ∨
      lead b = .stray := by
  by_cases hrange : 0x80 ≤ b ∧ b < 0xC2 ∨ 0xF5 ≤ b
  · have hstray : lead b = .stray := by
      unfold lead
      rw [if_neg (by omega)]
      by_cases hlow : b < 0xC2
      · rw [if_pos hlow]
      · rw [if_neg hlow, if_neg (by omega), if_neg (by omega), if_neg (by omega),
          if_neg (by omega), if_neg (by omega), if_neg (by omega), if_neg (by omega)]
    simp [hstray]
  · omega

/-- **A first byte opens a state to which each of its characters belongs.** -/
theorem exists_lead {k : Nat} {c : Char} (h : Spans c.toNat (k + 1)) :
    ∃ p : Pending, lead (mark (k + 1) + c.toNat / 64 ^ (k + 1)) = .opens p ∧ p.due = k + 1 ∧
      p.Leads c.toNat := by
  have hvalid := toNat_char c
  generalize c.toNat = n at h hvalid
  cases h with
  | two hlow hhigh =>
    simp only [mark, Nat.zero_add, Nat.pow_one]
    refine ⟨_, lead_two (by omega) (by omega), rfl, ?_⟩
    rw [Pending.leads_mk]
    omega
  | three hlow hhigh =>
    simp only [mark, Nat.reduceAdd, Nat.reducePow]
    refine ⟨_, lead_three (by omega) (by omega), rfl, ?_⟩
    rw [Pending.leads_mk]
    refine ⟨Nat.two_pos, by omega, ?_, ?_⟩
    · split <;> omega
    · split <;> omega
  | four hlow hhigh =>
    simp only [mark, Nat.reduceAdd, Nat.reducePow]
    refine ⟨_, lead_four (by omega) (by omega), rfl, ?_⟩
    rw [Pending.leads_mk]
    refine ⟨Nat.succ_pos 2, by omega, ?_, ?_⟩
    · split <;> omega
    · split <;> omega

/-- A byte that stands alone is that of its character. -/
theorem utf8EncodeChar_of_single {b : UInt8} {c : Char} (h : lead b.toNat = .single c) :
    String.utf8EncodeChar c = [b] := by
  rcases lead_cases b.toNat with hb | hb | hb | hb | hstray
  · rw [lead_eq_single hb, Lead.single.injEq] at h
    subst h
    have hchar := toNat_ofNat_char (n := b.toNat) (by omega)
    have hspans : Spans (Char.ofNat b.toNat).toNat 0 := by
      rw [hchar]
      exact .one hb
    have hbyte : mark 0 + b.toNat / 64 ^ 0 = b.toNat := by
      simp only [mark]
      omega
    rw [utf8EncodeChar_eq hspans, hchar, hbyte, UInt8.ofNat_toNat]
    rfl
  · rw [lead_two hb.1 hb.2] at h
    cases h
  · rw [lead_three hb.1 hb.2] at h
    cases h
  · rw [lead_four hb.1 hb.2] at h
    cases h
  · rw [hstray] at h
    cases h

/-- **A first byte opens no state to which other characters belong.** -/
theorem utf8EncodeChar_of_lead {b : UInt8} {p : Pending} (h : lead b.toNat = .opens p) {n : Nat}
    (hn : p.Leads n) : String.utf8EncodeChar (Char.ofNat n) = b :: continuation p.due n := by
  -- the first byte gives the range of the number, and that the number is one of a character
  have hspans : ∀ {k}, Spans n k → n < 0xD800 ∨ 0xDFFF < n ∧ n < 0x110000 →
      mark k + n / 64 ^ k = b.toNat → String.utf8EncodeChar (Char.ofNat n) = b :: continuation k n := by
    intro k hk hvalid hb
    have hchar := toNat_ofNat_char hvalid
    rw [← hchar] at hk
    rw [utf8EncodeChar_eq hk, hchar, hb, UInt8.ofNat_toNat]
  obtain ⟨-, hbits, hlow, hhigh⟩ := hn
  rcases lead_cases b.toNat with hb | hb | hb | hb | hstray
  · rw [lead_eq_single hb] at h
    cases h
  · rw [lead_two hb.1 hb.2, Lead.opens.injEq] at h
    subst h
    simp only [Nat.pow_one] at hbits
    exact hspans (.two (by omega) (by omega)) (by omega) (by simp only [mark]; omega)
  · rw [lead_three hb.1 hb.2, Lead.opens.injEq] at h
    subst h
    simp only [Nat.reducePow, Nat.reduceSub] at hbits hlow hhigh
    have hrange : (0x800 ≤ n ∧ n < 0x10000) ∧ (n < 0xD800 ∨ 0xDFFF < n) := by
      split at hlow <;> split at hhigh <;> omega
    exact hspans (.three hrange.1.1 hrange.1.2) (by omega) (by simp only [mark]; omega)
  · rw [lead_four hb.1 hb.2, Lead.opens.injEq] at h
    subst h
    simp only [Nat.reducePow, Nat.reduceSub] at hbits hlow hhigh
    have hrange : 0x10000 ≤ n ∧ n < 0x110000 := by
      split at hlow <;> split at hhigh <;> omega
    exact hspans (.four hrange.1 hrange.2) (by omega) (by simp only [mark]; omega)
  · rw [hstray] at h
    cases h

/-- What every state allows: a byte at least, and continuing bytes only. -/
structure Pending.Sound (p : Pending) : Prop where
  pos : 0 < p.due
  low : 0x80 ≤ p.low
  high : p.high ≤ 0xBF

theorem sound_of_lead {b : Nat} {p : Pending} (h : lead b = .opens p) : p.Sound := by
  rcases lead_cases b with hb | hb | hb | hb | hstray
  · rw [lead_eq_single hb] at h
    cases h
  · rw [lead_two hb.1 hb.2, Lead.opens.injEq] at h
    subst h
    exact ⟨Nat.one_pos, Nat.le_refl _, Nat.le_refl _⟩
  · rw [lead_three hb.1 hb.2, Lead.opens.injEq] at h
    subst h
    refine ⟨Nat.two_pos, ?_, ?_⟩
    · dsimp only
      split <;> omega
    · dsimp only
      split <;> omega
  · rw [lead_four hb.1 hb.2, Lead.opens.injEq] at h
    subst h
    refine ⟨Nat.succ_pos 2, ?_, ?_⟩
    · dsimp only
      split <;> omega
    · dsimp only
      split <;> omega
  · rw [hstray] at h
    cases h

/-! ## Reading on -/

/-- The state behind a continuing byte, if more of them are due. -/
def Pending.next (p : Pending) (b : Nat) : Pending :=
  ⟨p.bits * 64 + (b - 0x80), p.due - 1, 0x80, 0xBF⟩

theorem Pending.sound_next {p : Pending} (hdue : 1 < p.due) (b : Nat) : (p.next b).Sound :=
  ⟨Nat.sub_pos_of_lt hdue, Nat.le_refl _, Nat.le_refl _⟩

/-- The characters of the state behind a byte are those with the bits of the byte. -/
theorem Pending.leads_next {p : Pending} {n b : Nat} (hdue : 1 < p.due) (hlow : 0x80 ≤ b)
    (hhigh : b ≤ 0xBF) :
    (p.next b).Leads n ↔ n / 64 ^ p.due = p.bits ∧ n / 64 ^ (p.due - 1) % 64 + 0x80 = b := by
  obtain ⟨k, hk⟩ : ∃ k, p.due = k + 2 := ⟨p.due - 2, by omega⟩
  have hpow : n / 64 ^ (k + 2) = n / 64 ^ (k + 1) / 64 := by
    rw [Nat.pow_succ 64 (k + 1), Nat.div_div_eq_div_mul]
  unfold Pending.next
  rw [leads_mk, hk, Nat.add_one_sub_one, hpow]
  omega

theorem itemsFrom_next {p : Pending} {b : UInt8} (hlow : p.low ≤ b.toNat) (hhigh : b.toNat ≤ p.high)
    (bs : List UInt8) :
    itemsFrom (some p) (b :: bs) =
      if p.due = 1 then some (Char.ofNat (p.bits * 64 + (b.toNat - 0x80))) :: itemsFrom none bs
      else itemsFrom (some (p.next b.toNat)) bs := by
  have hrange : p.low ≤ b.toNat ∧ b.toNat ≤ p.high := ⟨hlow, hhigh⟩
  by_cases hdue : p.due = 1
  · simp only [itemsFrom, if_pos hrange, if_pos hdue]
  · unfold Pending.next
    simp only [itemsFrom, if_pos hrange, if_neg hdue]

/-- The bytes of a character, behind the first ones that opened the state, are read as it. -/
theorem itemsFrom_continuation {p : Pending} {n : Nat} (h : p.Leads n) (rest : List UInt8) :
    itemsFrom (some p) (continuation p.due n ++ rest) = some (Char.ofNat n) :: itemsFrom none rest := by
  obtain ⟨k, hk⟩ : ∃ k, p.due = k + 1 := ⟨p.due - 1, (Nat.sub_add_cancel h.pos).symm⟩
  -- each byte that is read leaves one less to be due
  induction k generalizing p with
  | zero =>
    have hbyte := toNat_ofNat_of_lt (n := n / 64 ^ 0 % 64 + 0x80) (by omega)
    obtain ⟨-, hbits, hlow, hhigh⟩ := h
    rw [hk] at hbits hlow hhigh
    rw [hk, continuation, List.cons_append,
      itemsFrom_next (by rw [hbyte]; exact hlow) (by rw [hbyte]; exact hhigh), if_pos hk, hbyte]
    have hn : p.bits * 64 + (n / 64 ^ 0 % 64 + 0x80 - 0x80) = n := by
      rw [← hbits]
      omega
    rw [hn]
    rfl
  | succ k ih =>
    have hbyte := toNat_ofNat_of_lt (n := n / 64 ^ (k + 1) % 64 + 0x80) (by omega)
    have hnext : (p.next (n / 64 ^ (k + 1) % 64 + 0x80)).Leads n :=
      (Pending.leads_next (by omega) (by omega) (by omega)).mpr ⟨h.bits, by rw [hk]; rfl⟩
    obtain ⟨-, hbits, hlow, hhigh⟩ := h
    rw [hk] at hlow hhigh
    rw [hk, continuation, List.cons_append,
      itemsFrom_next (by rw [hbyte]; exact hlow) (by rw [hbyte]; exact hhigh), if_neg (by omega),
      hbyte]
    have hdue : (p.next (n / 64 ^ (k + 1) % 64 + 0x80)).due = k + 1 := by
      change p.due - 1 = k + 1
      rw [hk]
      rfl
    rw [← ih hnext hdue, hdue]

/-- **The bytes of a character are read as it.** -/
theorem itemsFrom_utf8EncodeChar (c : Char) (rest : List UInt8) :
    itemsFrom none (String.utf8EncodeChar c ++ rest) = some c :: itemsFrom none rest := by
  obtain ⟨k, hk⟩ := exists_spans c
  rw [utf8EncodeChar_eq hk, List.cons_append, itemsFrom]
  cases k with
  | zero =>
    cases hk with
    | one hc =>
      have hbyte : mark 0 + c.toNat / 64 ^ 0 = c.toNat := by
        simp only [mark]
        omega
      rw [hbyte, toNat_ofNat_of_lt (by omega), lead_eq_single hc, Char.ofNat_toNat]
      rfl
  | succ k =>
    obtain ⟨p, hp, hdue, hleads⟩ := exists_lead hk
    rw [toNat_ofNat_of_lt (firstByte_lt hk), hp, ← hdue]
    dsimp only
    rw [itemsFrom_continuation hleads, Char.ofNat_toNat]

/-- **What was written is read back.** -/
theorem items_encode (text : List Char) : items (encode text) = text.map some := by
  unfold items
  induction text with
  | nil => rfl
  | cons c text ih =>
    have hcons : encode (c :: text) = String.utf8EncodeChar c ++ encode text := List.flatMap_cons
    rw [hcons, itemsFrom_utf8EncodeChar, ih]
    rfl

/-- **A text is its own lossy reading.** -/
theorem lossy_encode (text : List Char) : lossy (encode text) = text := by
  unfold lossy
  rw [items_encode, List.map_map]
  exact List.map_id text

/-! ## Nothing else is a text -/

/-- **What a state reads without a fault are the bytes of a character, and more.** -/
theorem exists_of_itemsFrom_some {bytes : List UInt8} :
    ∀ {p : Pending}, p.Sound → ∀ {text : List Char}, itemsFrom (some p) bytes = text.map some →
      ∃ n rest text', p.Leads n ∧ bytes = continuation p.due n ++ rest ∧
        text = Char.ofNat n :: text' ∧ itemsFrom none rest = text'.map some := by
  induction bytes with
  | nil =>
    intro p _ text h
    cases text with
    | nil => cases h
    | cons c text => cases h
  | cons b bytes ih =>
    intro p hp text h
    by_cases hrange : p.low ≤ b.toNat ∧ b.toNat ≤ p.high
    · have hlow := hp.low
      have hhigh := hp.high
      rw [itemsFrom_next hrange.1 hrange.2] at h
      by_cases hdue : p.due = 1
      · -- the last byte that is due completes the character
        rw [if_pos hdue] at h
        obtain ⟨c, text', rfl, hc, htext⟩ := List.map_eq_cons_iff.mp h.symm
        refine ⟨p.bits * 64 + (b.toNat - 0x80), bytes, text', ?_, ?_, ?_, htext.symm⟩
        · constructor
          · exact hp.pos
          · rw [hdue]
            omega
          · rw [hdue]
            omega
          · rw [hdue]
            omega
        · have hbyte : (p.bits * 64 + (b.toNat - 0x80)) / 64 ^ 0 % 64 + 0x80 = b.toNat := by
            omega
          rw [hdue, continuation, hbyte, UInt8.ofNat_toNat]
          rfl
        · rw [Option.some.inj hc]
      · rw [if_neg hdue] at h
        have hmore : 1 < p.due := by
          have hpos := hp.pos
          omega
        obtain ⟨n, rest, text', hleads, hbytes, htext, hrest⟩ := ih (p.sound_next hmore b.toNat) h
        obtain ⟨hbits, hbyte⟩ := (Pending.leads_next hmore (by omega) (by omega)).mp hleads
        refine ⟨n, rest, text', ⟨hp.pos, hbits, ?_, ?_⟩, ?_, htext, hrest⟩
        · rw [hbyte]
          exact hrange.1
        · rw [hbyte]
          exact hrange.2
        · obtain ⟨k, hk⟩ : ∃ k, p.due = k + 1 := ⟨p.due - 1, by omega⟩
          have hnext : (p.next b.toNat).due = k := by
            change p.due - 1 = k
            omega
          rw [hk, Nat.add_sub_cancel] at hbyte
          rw [hbytes, hnext, hk, continuation, hbyte, UInt8.ofNat_toNat]
          rfl
    · rw [itemsFrom, if_neg hrange] at h
      cases text with
      | nil => cases h
      | cons c text => cases h

/-- Bytes that are read without a fault are those of the text that is read. -/
theorem eq_encode_of_itemsFrom (bytes : List UInt8) {text : List Char}
    (h : itemsFrom none bytes = text.map some) : bytes = encode text := by
  cases bytes with
  | nil =>
    cases text with
    | nil => rfl
    | cons c text => cases h
  | cons b bytes =>
    rw [itemsFrom] at h
    cases hlead : lead b.toNat with
    | stray =>
      rw [hlead] at h
      cases text with
      | nil => cases h
      | cons c text => cases h
    | single c =>
      rw [hlead] at h
      obtain ⟨c', text', rfl, hc, htext⟩ := List.map_eq_cons_iff.mp h.symm
      have hcons : encode (c' :: text') = String.utf8EncodeChar c' ++ encode text' :=
        List.flatMap_cons
      rw [hcons, Option.some.inj hc, utf8EncodeChar_of_single hlead,
        ← eq_encode_of_itemsFrom bytes htext.symm]
      rfl
    | opens p =>
      rw [hlead] at h
      obtain ⟨n, rest, text', hleads, hbytes, rfl, hrest⟩ :=
        exists_of_itemsFrom_some (sound_of_lead hlead) h
      have hlength : rest.length < (b :: bytes).length := by
        rw [hbytes, List.length_cons, List.length_append]
        omega
      have hcons : encode (Char.ofNat n :: text')
          = String.utf8EncodeChar (Char.ofNat n) ++ encode text' := List.flatMap_cons
      rw [hcons, utf8EncodeChar_of_lead hlead hleads, ← eq_encode_of_itemsFrom rest hrest, hbytes]
      rfl
termination_by bytes.length

theorem mapM_eq_some_iff {α β : Type} {f : α → Option β} {items : List α} {results : List β} :
    items.mapM f = some results ↔ items.map f = results.map some := by
  induction items generalizing results with
  | nil => cases results <;> simp
  | cons item items ih =>
    rw [List.mapM_cons, List.map_cons]
    cases hitem : f item with
    | none => cases results <;> simp
    | some b =>
      cases results with
      | nil => cases items.mapM f <;> simp
      | cons c results =>
        rw [List.map_cons, List.cons.injEq, ← ih]
        cases items.mapM f <;> simp

/-- **Bytes are read as a text exactly if they are the bytes of the text.** -/
theorem chars?_eq_some_iff {bytes : List UInt8} {text : List Char} :
    chars? bytes = some text ↔ bytes = encode text := by
  unfold chars?
  rw [mapM_eq_some_iff, List.map_id]
  constructor
  · intro h
    exact eq_encode_of_itemsFrom bytes h
  · rintro rfl
    exact items_encode text

theorem encode_injective {s t : List Char} (h : encode s = encode t) : s = t := by
  rw [← lossy_encode s, h, lossy_encode]

theorem encode_append (s t : List Char) : encode (s ++ t) = encode s ++ encode t :=
  List.flatMap_append

/-! ## How high bytes are -/

theorem le_of_mem_continuation {b : UInt8} {n : Nat} :
    ∀ {k : Nat}, b ∈ continuation k n → 0x80 ≤ b.toNat
  | k + 1, h => by
    rcases List.mem_cons.mp h with rfl | h
    · rw [toNat_ofNat_of_lt (by omega)]
      omega
    · exact le_of_mem_continuation h

/-- **The bytes of a text are no lower than the lowest of its characters**, where that is in ASCII. -/
theorem le_of_mem_encode {low : Nat} (hlow : low ≤ 0x80) {text : List Char}
    (h : ∀ c ∈ text, low ≤ c.toNat) {b : UInt8} (hb : b ∈ encode text) : low ≤ b.toNat := by
  obtain ⟨c, hc, hb⟩ := List.mem_flatMap.mp hb
  obtain ⟨k, hk⟩ := exists_spans c
  rw [utf8EncodeChar_eq hk] at hb
  rcases List.mem_cons.mp hb with rfl | hb
  · rw [toNat_ofNat_of_lt (firstByte_lt hk)]
    have hle := h c hc
    -- only a byte that stands alone is one of ASCII
    cases hk <;> simp only [mark] <;> omega
  · exact hlow.trans (le_of_mem_continuation hb)

/-! ## Order -/

/-- The continuing bytes of characters with the same first byte are in their order. -/
theorem continuation_lt {n m : Nat} (h : n < m) (x y : List UInt8) :
    ∀ {k : Nat}, n / 64 ^ k = m / 64 ^ k → continuation k n ++ x < continuation k m ++ y
  | 0, heq => by
    simp only [Nat.pow_zero, Nat.div_one] at heq
    omega
  | k + 1, heq => by
    have hpow : ∀ i, i / 64 ^ (k + 1) = i / 64 ^ k / 64 := by
      intro i
      rw [Nat.pow_succ, Nat.div_div_eq_div_mul]
    have hle : n / 64 ^ k ≤ m / 64 ^ k := Nat.div_le_div_right (Nat.le_of_lt h)
    rw [hpow, hpow] at heq
    simp only [continuation, List.cons_append]
    rw [List.cons_lt_cons_iff, UInt8.lt_iff_toNat_lt, toNat_ofNat_of_lt (by omega),
      toNat_ofNat_of_lt (by omega)]
    by_cases hsix : n / 64 ^ k = m / 64 ^ k
    · exact Or.inr ⟨by rw [hsix], continuation_lt h x y hsix⟩
    · exact Or.inl (by omega)

/-- The first byte of a character is below those of the characters that more bytes continue. -/
theorem firstByte_lt_firstByte {n m k l : Nat} (hn : Spans n k) (hm : Spans m l) (h : k < l) :
    mark k + n / 64 ^ k < mark l + m / 64 ^ l := by
  cases hn <;> cases hm <;> simp only [mark] <;> omega

theorem spans_le_spans {n m k l : Nat} (hn : Spans n k) (hm : Spans m l) (h : n < m) : k ≤ l := by
  cases hn <;> cases hm <;> omega

/-- **The bytes of a lesser character come first, whatever stands behind them.** -/
theorem utf8EncodeChar_lt {c d : Char} (h : c < d) (x y : List UInt8) :
    String.utf8EncodeChar c ++ x < String.utf8EncodeChar d ++ y := by
  have hlt : c.toNat < d.toNat := h
  obtain ⟨k, hk⟩ := exists_spans c
  obtain ⟨l, hl⟩ := exists_spans d
  rw [utf8EncodeChar_eq hk, utf8EncodeChar_eq hl, List.cons_append, List.cons_append,
    List.cons_lt_cons_iff, UInt8.lt_iff_toNat_lt, toNat_ofNat_of_lt (firstByte_lt hk),
    toNat_ofNat_of_lt (firstByte_lt hl)]
  rcases Nat.lt_or_eq_of_le (spans_le_spans hk hl hlt) with hkl | rfl
  · exact Or.inl (firstByte_lt_firstByte hk hl hkl)
  · have hle : c.toNat / 64 ^ k ≤ d.toNat / 64 ^ k := Nat.div_le_div_right (Nat.le_of_lt hlt)
    by_cases hfirst : c.toNat / 64 ^ k = d.toNat / 64 ^ k
    · exact Or.inr ⟨by rw [hfirst], continuation_lt hlt x y hfirst⟩
    · exact Or.inl (by omega)

/-- **The order of texts is the order of their bytes.** -/
theorem encode_lt_encode {s t : List Char} (h : s < t) : encode s < encode t := by
  have hcons : ∀ c l, encode (c :: l) = String.utf8EncodeChar c ++ encode l :=
    fun c l => List.flatMap_cons
  induction s generalizing t with
  | nil =>
    cases t with
    | nil => exact absurd h (List.lt_irrefl _)
    | cons d t =>
      obtain ⟨l, hl⟩ := exists_spans d
      rw [hcons, utf8EncodeChar_eq hl]
      exact List.nil_lt_cons _ _
  | cons c s ih =>
    cases t with
    | nil => exact absurd h (List.not_lt_nil _)
    | cons d t =>
      rw [hcons, hcons]
      rcases List.cons_lt_cons_iff.mp h with hlt | ⟨rfl, hlt⟩
      · exact utf8EncodeChar_lt hlt _ _
      · exact List.append_left_lt (ih hlt)

end SecretClient.Utf8
