import SecretClient.Proofs.Text.Utf8

/-!
# Bytes that are no text

How far a fault reaches in the lossy reading of bytes. The reader has a character pending or none; a byte
that cannot continue the pending one ends it and is read as if nothing had been pending. So a fault ends
where a byte stands that continues no character, and bytes can be cut there. `Pending.Wide p` says that
no character of ASCII can come of the state `p`, so the bytes of ASCII are told by their values alone.

* `lossy_append` : the text of two parts is the texts of the parts, if the second begins a character
* `lossy_append_encode` : what was written as a text is kept, whatever stands around it
* `asciiChars_lossy` : the characters of ASCII are the bytes of ASCII
-/

namespace SecretClient.Utf8

/-! ## Where bytes can be cut -/

/-- The bytes begin with one that can only continue a character. -/
def Continues (bytes : List UInt8) : Prop := ∃ b ∈ bytes.head?, 0x80 ≤ b.toNat ∧ b.toNat ≤ 0xBF

/-- A byte that cannot continue the pending character is read as a first byte. -/
theorem itemsFrom_of_not_range {p : Pending} {b : UInt8}
    (h : ¬ (p.low ≤ b.toNat ∧ b.toNat ≤ p.high)) (bytes : List UInt8) :
    itemsFrom (some p) (b :: bytes) = none :: itemsFrom none (b :: bytes) := by
  simp only [itemsFrom, if_neg h]

/-- In front of bytes that continue nothing, the pending character ends as ill-formed. -/
theorem itemsFrom_of_not_continues {p : Pending} (hp : p.Sound) {bytes : List UInt8}
    (h : ¬ Continues bytes) : itemsFrom (some p) bytes = none :: itemsFrom none bytes := by
  cases bytes with
  | nil => rfl
  | cons b bytes =>
    refine itemsFrom_of_not_range (fun hrange => h ⟨b, rfl, ?_, ?_⟩) bytes
    · exact hp.low.trans hrange.1
    · exact hrange.2.trans hp.high

/-- From every state, what follows a cut is read as if it stood alone. -/
theorem itemsFrom_append {bytes rest : List UInt8} (h : ¬ Continues rest) :
    ∀ {s : Option Pending}, (∀ p ∈ s, p.Sound) →
      itemsFrom s (bytes ++ rest) = itemsFrom s bytes ++ itemsFrom none rest := by
  induction bytes with
  | nil =>
    intro s hs
    cases s with
    | none => rfl
    | some p => exact itemsFrom_of_not_continues (hs p rfl) h
  | cons b bytes ih =>
    have hnone : ∀ p ∈ (none : Option Pending), p.Sound := by simp
    have hfirst : itemsFrom none (b :: bytes ++ rest)
        = itemsFrom none (b :: bytes) ++ itemsFrom none rest := by
      simp only [List.cons_append, itemsFrom]
      cases hlead : lead b.toNat with
      | single c => simp only [ih hnone, List.cons_append]
      | stray => simp only [ih hnone, List.cons_append]
      | opens p =>
        refine ih fun q hq => ?_
        cases hq
        exact sound_of_lead hlead
    intro s hs
    cases s with
    | none => exact hfirst
    | some p =>
      by_cases hrange : p.low ≤ b.toNat ∧ b.toNat ≤ p.high
      · rw [List.cons_append, itemsFrom_next hrange.1 hrange.2, itemsFrom_next hrange.1 hrange.2]
        split
        · rw [ih hnone, List.cons_append]
        · next hdue =>
          have hpos := (hs p rfl).pos
          refine ih fun q hq => ?_
          rw [← Option.mem_some_iff.mp hq]
          exact p.sound_next (by omega) b.toNat
      · rw [List.cons_append, itemsFrom_of_not_range hrange, itemsFrom_of_not_range hrange,
          ← List.cons_append, hfirst, List.cons_append]

/-- **Where bytes begin that continue no character, a text can be cut.** What is damaged in front of the
cut neither takes anything from what is behind it nor changes it. -/
theorem lossy_append (bytes : List UInt8) {rest : List UInt8} (h : ¬ Continues rest) :
    lossy (bytes ++ rest) = lossy bytes ++ lossy rest := by
  unfold lossy items
  rw [itemsFrom_append h (by simp), List.map_append]

/-! ## What was written as a text -/

theorem lossy_encode_append (text : List Char) (rest : List UInt8) :
    lossy (encode text ++ rest) = text ++ lossy rest := by
  have hitems : items (encode text ++ rest) = text.map some ++ items rest := by
    unfold items
    induction text with
    | nil => rfl
    | cons c text ih =>
      have hcons : encode (c :: text) = String.utf8EncodeChar c ++ encode text := List.flatMap_cons
      rw [hcons, List.append_assoc, itemsFrom_utf8EncodeChar, ih]
      rfl
  unfold lossy
  rw [hitems, List.map_append, List.map_map]
  exact congrArg (· ++ _) (List.map_id text)

/-- The bytes of a text begin a character. -/
theorem not_continues_encode {text : List Char} (h : text ≠ []) (rest : List UInt8) :
    ¬ Continues (encode text ++ rest) := by
  obtain ⟨c, text, rfl⟩ := List.exists_cons_of_ne_nil h
  obtain ⟨k, hk⟩ := exists_spans c
  have hcons : encode (c :: text) = String.utf8EncodeChar c ++ encode text := List.flatMap_cons
  rw [hcons, utf8EncodeChar_eq hk]
  rintro ⟨b, hb, hlow, hhigh⟩
  cases hb
  rw [toNat_ofNat_of_lt (firstByte_lt hk)] at hlow hhigh
  cases hk <;> simp only [mark] at hlow hhigh <;> omega

/-- **What was written as a text is kept as it is**, whatever bytes stand in front of it and behind
it. -/
theorem lossy_append_encode (bytes : List UInt8) {text : List Char} (h : text ≠ [])
    (rest : List UInt8) :
    lossy (bytes ++ (encode text ++ rest)) = lossy bytes ++ (text ++ lossy rest) := by
  rw [lossy_append bytes (not_continues_encode h rest), lossy_encode_append]

/-- A character that breaks off costs itself alone. -/
example : lossy [0x61, 0xE2, 0x82, 0x62, 0xF0, 0x9F, 0x98]
    = ['a', '\uFFFD', 'b', '\uFFFD'] := by decide

/-! ## ASCII -/

/-- No character of ASCII can come of the state. -/
def Pending.Wide (p : Pending) : Prop := ∀ n, p.Leads n → 0x80 ≤ (Char.ofNat n).toNat

/-- A character of ASCII is one byte, so none begins with a byte that others must follow. -/
theorem wide_of_lead {b : UInt8} {p : Pending} (h : lead b.toNat = .opens p) : p.Wide := by
  intro n hn
  have hbytes := utf8EncodeChar_of_lead h hn
  obtain ⟨k, hk⟩ : ∃ k, p.due = k + 1 := ⟨p.due - 1, (Nat.sub_add_cancel hn.pos).symm⟩
  by_contra hlow
  rw [utf8EncodeChar_eq (.one (by omega)), hk] at hbytes
  cases hbytes

theorem Pending.Wide.next {p : Pending} (h : p.Wide) {b : Nat} (hdue : 1 < p.due) (hlow : p.low ≤ b)
    (hhigh : b ≤ p.high) (hp : p.Sound) : (p.next b).Wide := by
  have hplow := hp.low
  have hphigh := hp.high
  intro n hn
  obtain ⟨hbits, hbyte⟩ := (leads_next hdue (by omega) (by omega)).mp hn
  exact h n ⟨hp.pos, hbits, by omega, by omega⟩

/-- The last byte that is due completes a character of the state. -/
theorem Pending.leads_last {p : Pending} (hp : p.Sound) (hdue : p.due = 1) {b : Nat}
    (hlow : p.low ≤ b) (hhigh : b ≤ p.high) : p.Leads (p.bits * 64 + (b - 0x80)) := by
  have hplow := hp.low
  have hphigh := hp.high
  refine ⟨hp.pos, ?_, ?_, ?_⟩
  · rw [hdue]
    omega
  · rw [hdue]
    omega
  · rw [hdue]
    omega

theorem lead_eq_single_iff {b : Nat} {c : Char} :
    lead b = .single c ↔ b < 0x80 ∧ c = Char.ofNat b := by
  constructor
  · intro h
    rcases lead_cases b with hb | hb | hb | hb | hstray
    · rw [lead_eq_single hb, Lead.single.injEq] at h
      exact ⟨hb, h.symm⟩
    · rw [lead_two hb.1 hb.2] at h
      cases h
    · rw [lead_three hb.1 hb.2] at h
      cases h
    · rw [lead_four hb.1 hb.2] at h
      cases h
    · rw [hstray] at h
      cases h
  · rintro ⟨hb, rfl⟩
    exact lead_eq_single hb

/-- A first byte that does not stand alone is none of ASCII. -/
theorem le_of_lead_ne_single {b : Nat} (h : ∀ c, lead b ≠ .single c) : 0x80 ≤ b := by
  by_contra hlow
  exact h _ (lead_eq_single (by omega))

/-- The characters of ASCII among others. -/
def asciiChars (text : List Char) : List Char := text.filter fun c => c.toNat < 0x80

/-- The characters that bytes of ASCII stand for, among other bytes. -/
def asciiOf (bytes : List UInt8) : List Char :=
  (bytes.filter fun b => b.toNat < 0x80).map fun b => Char.ofNat b.toNat

theorem asciiChars_cons_of_wide {c : Char} (h : 0x80 ≤ c.toNat) (text : List Char) :
    asciiChars (c :: text) = asciiChars text :=
  List.filter_cons_of_neg (by simp only [decide_eq_true_eq]; omega)

theorem asciiOf_cons_of_wide {b : UInt8} (h : 0x80 ≤ b.toNat) (bytes : List UInt8) :
    asciiOf (b :: bytes) = asciiOf bytes := by
  unfold asciiOf
  rw [List.filter_cons_of_neg (by simp only [decide_eq_true_eq]; omega)]

/-- U+FFFD is no character of ASCII. -/
theorem asciiChars_cons_none (items : List (Option Char)) :
    asciiChars ((none :: items).map (·.getD '\uFFFD')) = asciiChars (items.map (·.getD '\uFFFD')) :=
  asciiChars_cons_of_wide (by decide) _

/-- From every state, the characters of ASCII are those of the bytes that are read on. -/
theorem asciiChars_itemsFrom (bytes : List UInt8) :
    ∀ {s : Option Pending}, (∀ p ∈ s, p.Sound ∧ p.Wide) →
      asciiChars ((itemsFrom s bytes).map (·.getD '\uFFFD')) = asciiOf bytes := by
  induction bytes with
  | nil =>
    intro s _
    cases s with
    | none => rfl
    | some p => exact asciiChars_cons_none []
  | cons b bytes ih =>
    have hnone : ∀ p ∈ (none : Option Pending), p.Sound ∧ p.Wide := by simp
    have hfirst : asciiChars ((itemsFrom none (b :: bytes)).map (·.getD '\uFFFD'))
        = asciiOf (b :: bytes) := by
      rw [itemsFrom]
      cases hlead : lead b.toNat with
      | single c =>
        obtain ⟨hb, rfl⟩ := lead_eq_single_iff.mp hlead
        have hc : (Char.ofNat b.toNat).toNat = b.toNat := toNat_ofNat_char (by omega)
        have hrest := ih hnone
        unfold asciiChars asciiOf at hrest ⊢
        rw [List.map_cons, Option.getD_some, List.filter_cons_of_pos (by simpa [hc] using hb),
          List.filter_cons_of_pos (by simpa using hb), List.map_cons, hrest]
      | stray =>
        have hb : 0x80 ≤ b.toNat := le_of_lead_ne_single (by simp [hlead])
        rw [asciiChars_cons_none, ih hnone, asciiOf_cons_of_wide hb]
      | opens p =>
        have hb : 0x80 ≤ b.toNat := le_of_lead_ne_single (by simp [hlead])
        rw [asciiOf_cons_of_wide hb]
        refine ih fun q hq => ?_
        cases hq
        exact ⟨sound_of_lead hlead, wide_of_lead hlead⟩
    intro s hs
    cases s with
    | none => exact hfirst
    | some p =>
      obtain ⟨hp, hwide⟩ := hs p rfl
      by_cases hrange : p.low ≤ b.toNat ∧ b.toNat ≤ p.high
      · rw [itemsFrom_next hrange.1 hrange.2, asciiOf_cons_of_wide (hp.low.trans hrange.1)]
        split
        · next hdue =>
          rw [List.map_cons, Option.getD_some,
            asciiChars_cons_of_wide (hwide _ (p.leads_last hp hdue hrange.1 hrange.2)), ih hnone]
        · next hdue =>
          have hpos := hp.pos
          refine ih fun q hq => ?_
          rw [← Option.mem_some_iff.mp hq]
          exact ⟨p.sound_next (by omega) b.toNat,
            hwide.next (by omega) hrange.1 hrange.2 hp⟩
      · rw [itemsFrom_of_not_range hrange, asciiChars_cons_none, hfirst]

/-- **The bytes of ASCII are kept as themselves and in their order**, and no others come to be. -/
theorem asciiChars_lossy (bytes : List UInt8) : asciiChars (lossy bytes) = asciiOf bytes :=
  asciiChars_itemsFrom bytes (by simp)

end SecretClient.Utf8
