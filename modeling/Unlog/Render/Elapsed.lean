import Unlog.Render.Time

/-! # Elapsed texts

The text `format_elapsed` writes fits its buffer and can be read back. -/

namespace Unlog.Render

/-! ## Numerals -/

def isDigit (c : UInt8) : Bool := decide ('0'.toUInt8 ≤ c) && decide (c ≤ '9'.toUInt8)

/-- A nonempty string of decimal digits. -/
def Numeral (text : Text) : Prop := text ≠ [] ∧ ∀ c ∈ text, isDigit c = true

/-- The number a numeral denotes. -/
def readDecimal (text : Text) : ℕ := Nat.ofDigitChars 10 (text.map Char.ofUInt8) 0

theorem digitChar_byte {c : Char} (h : c.isDigit = true) :
    isDigit c.toUInt8 = true ∧ Char.ofUInt8 c.toUInt8 = c := by
  obtain ⟨hlo, hhi⟩ : 48 ≤ c.toNat ∧ c.toNat ≤ 57 := by
    simpa [Char.isDigit, UInt32.le_iff_toNat_le] using h
  rw [← Char.ofNat_toNat c]
  generalize c.toNat = code at hlo hhi
  interval_cases code <;> decide

theorem numeral_decimal (n : ℕ) : Numeral (decimal n) := by
  constructor
  · simp [decimal]
  · intro c hc
    obtain ⟨digit, hdigit, rfl⟩ := List.mem_map.mp hc
    exact (digitChar_byte (Nat.isDigit_of_mem_toDigits (by decide) (by decide) hdigit)).1

theorem readDecimal_decimal (n : ℕ) : readDecimal (decimal n) = n := by
  have hround : ((Nat.toDigits 10 n).map Char.toUInt8).map Char.ofUInt8 = Nat.toDigits 10 n := by
    rw [List.map_map]
    refine (List.map_congr_left fun c hc => ?_).trans (List.map_id _)
    exact (digitChar_byte (Nat.isDigit_of_mem_toDigits (by decide) (by decide) hc)).2
  rw [readDecimal, decimal, hround, Nat.ofDigitChars_ten_toDigits]

theorem length_decimal_le {n k : ℕ} (hk : 0 < k) (h : n < 10 ^ k) : (decimal n).length ≤ k := by
  rw [decimal, List.length_map]
  exact (Nat.length_toDigits_le_iff (by decide) hk).mpr h

theorem numeral_paddedDecimal (width n : ℕ) : Numeral (paddedDecimal width n) := by
  obtain ⟨hne, hdigits⟩ := numeral_decimal n
  constructor
  · simp [paddedDecimal, hne]
  · intro c hc
    rcases List.mem_append.mp hc with hc | hc
    · rw [List.eq_of_mem_replicate hc]
      decide
    · exact hdigits c hc

theorem length_paddedDecimal {width n : ℕ} (hw : 0 < width) (h : n < 10 ^ width) :
    (paddedDecimal width n).length = width := by
  have hle := length_decimal_le hw h
  rw [paddedDecimal, List.length_append, List.length_replicate]
  omega

theorem readDecimal_paddedDecimal (width n : ℕ) : readDecimal (paddedDecimal width n) = n := by
  have hzero : Char.ofUInt8 '0'.toUInt8 = '0' := by decide
  rw [readDecimal, paddedDecimal, List.map_append, List.map_replicate, hzero,
    Nat.ofDigitChars_append, Nat.ofDigitChars_replicate_zero, Nat.mul_zero]
  exact readDecimal_decimal n

/-- A numeral ends where the first other character stands. -/
theorem numeral_append_inj {a b rest rest' : Text} {x y : UInt8}
    (ha : ∀ c ∈ a, isDigit c = true) (hb : ∀ c ∈ b, isDigit c = true) (hx : isDigit x = false)
    (hy : isDigit y = false) (h : a ++ x :: rest = b ++ y :: rest') :
    a = b ∧ x = y ∧ rest = rest' := by
  induction a generalizing b with
  | nil =>
      cases b with
      | nil => simpa using h
      | cons d b =>
          have hd := hb d List.mem_cons_self
          rw [← (List.cons.inj h).1, hx] at hd
          exact absurd hd Bool.false_ne_true
  | cons c a ih =>
      cases b with
      | nil =>
          have hc := ha c List.mem_cons_self
          rw [(List.cons.inj h).1, hy] at hc
          exact absurd hc Bool.false_ne_true
      | cons d b =>
          obtain ⟨rfl, htail⟩ := List.cons.inj h
          obtain ⟨rfl, hrest⟩ := ih (fun c hc => ha c (List.mem_cons_of_mem _ hc))
            (fun c hc => hb c (List.mem_cons_of_mem _ hc)) htail
          exact ⟨rfl, hrest⟩

/-- A numeral and the character that ends it. -/
def closeField (field : Text × UInt8) : Text := field.1 ++ [field.2]

/-- Numerals that are each ended by another character are read back one by one. -/
theorem closeFields_inj {fields fields' : List (Text × UInt8)}
    (h : ∀ field ∈ fields, Numeral field.1 ∧ isDigit field.2 = false)
    (h' : ∀ field ∈ fields', Numeral field.1 ∧ isDigit field.2 = false)
    (htext : fields.flatMap closeField = fields'.flatMap closeField) : fields = fields' := by
  induction fields generalizing fields' with
  | nil =>
      cases fields' with
      | nil => rfl
      | cons field' fields' => simp [closeField] at htext
  | cons field fields ih =>
      cases fields' with
      | nil => simp [closeField] at htext
      | cons field' fields' =>
          obtain ⟨hnumeral, hstop⟩ := h field List.mem_cons_self
          obtain ⟨hnumeral', hstop'⟩ := h' field' List.mem_cons_self
          simp only [List.flatMap_cons, closeField, List.append_assoc, List.singleton_append]
            at htext
          obtain ⟨hfirst, hsecond, hrest⟩ :=
            numeral_append_inj hnumeral.2 hnumeral'.2 hstop hstop' htext
          rw [Prod.ext hfirst hsecond, ih (fun f hf => h f (List.mem_cons_of_mem _ hf))
            (fun f hf => h' f (List.mem_cons_of_mem _ hf)) hrest]

/-! ## The grammar -/

/-- `+[H h MM m | M m] S.mmm s` -/
inductive ElapsedParts where
  | withHours (hours minutes seconds millis : Text)
  | withMinutes (minutes seconds millis : Text)
  | secondsOnly (seconds millis : Text)
  deriving DecidableEq, Repr

namespace ElapsedParts

def fields : ElapsedParts → List (Text × UInt8)
  | .withHours hours minutes seconds millis =>
    [(hours, 'h'.toUInt8), (minutes, 'm'.toUInt8), (seconds, '.'.toUInt8), (millis, 's'.toUInt8)]
  | .withMinutes minutes seconds millis =>
    [(minutes, 'm'.toUInt8), (seconds, '.'.toUInt8), (millis, 's'.toUInt8)]
  | .secondsOnly seconds millis => [(seconds, '.'.toUInt8), (millis, 's'.toUInt8)]

def text (parts : ElapsedParts) : Text := '+'.toUInt8 :: parts.fields.flatMap closeField

def WellFormed : ElapsedParts → Prop
  | .withHours hours minutes seconds millis =>
    Numeral hours ∧ (Numeral minutes ∧ minutes.length = 2) ∧ Numeral seconds ∧
      Numeral millis ∧ millis.length = 3
  | .withMinutes minutes seconds millis =>
    Numeral minutes ∧ Numeral seconds ∧ Numeral millis ∧ millis.length = 3
  | .secondsOnly seconds millis => Numeral seconds ∧ Numeral millis ∧ millis.length = 3

/-- `((H * 60 + M) * 60 + S) * 1000 + mmm` -/
def decode : ElapsedParts → ℕ
  | .withHours hours minutes seconds millis =>
    ((readDecimal hours * 60 + readDecimal minutes) * 60 + readDecimal seconds) * 1000 +
      readDecimal millis
  | .withMinutes minutes seconds millis =>
    (readDecimal minutes * 60 + readDecimal seconds) * 1000 + readDecimal millis
  | .secondsOnly seconds millis => readDecimal seconds * 1000 + readDecimal millis

theorem numeral_fields {parts : ElapsedParts} (h : parts.WellFormed) :
    ∀ field ∈ parts.fields, Numeral field.1 ∧ isDigit field.2 = false := by
  have hh : isDigit 'h'.toUInt8 = false := by decide
  have hm : isDigit 'm'.toUInt8 = false := by decide
  have hp : isDigit '.'.toUInt8 = false := by decide
  have hs : isDigit 's'.toUInt8 = false := by decide
  intro field hfield
  cases parts with
  | withHours hours minutes seconds millis =>
      obtain ⟨hhours, ⟨hminutes, -⟩, hseconds, hmillis, -⟩ := h
      simp only [fields, List.mem_cons, List.not_mem_nil, or_false] at hfield
      rcases hfield with rfl | rfl | rfl | rfl
      · exact ⟨hhours, hh⟩
      · exact ⟨hminutes, hm⟩
      · exact ⟨hseconds, hp⟩
      · exact ⟨hmillis, hs⟩
  | withMinutes minutes seconds millis =>
      obtain ⟨hminutes, hseconds, hmillis, -⟩ := h
      simp only [fields, List.mem_cons, List.not_mem_nil, or_false] at hfield
      rcases hfield with rfl | rfl | rfl
      · exact ⟨hminutes, hm⟩
      · exact ⟨hseconds, hp⟩
      · exact ⟨hmillis, hs⟩
  | secondsOnly seconds millis =>
      obtain ⟨hseconds, hmillis, -⟩ := h
      simp only [fields, List.mem_cons, List.not_mem_nil, or_false] at hfield
      rcases hfield with rfl | rfl
      · exact ⟨hseconds, hp⟩
      · exact ⟨hmillis, hs⟩

theorem fields_injective {parts parts' : ElapsedParts} (h : parts.fields = parts'.fields) :
    parts = parts' := by
  have hlength := congrArg List.length h
  cases parts with
  | withHours hours minutes seconds millis =>
      cases parts' with
      | withHours => simpa only [fields, List.cons.injEq, Prod.mk.injEq, and_true,
          withHours.injEq] using h
      | withMinutes | secondsOnly => simp [fields] at hlength
  | withMinutes minutes seconds millis =>
      cases parts' with
      | withMinutes => simpa only [fields, List.cons.injEq, Prod.mk.injEq, and_true,
          withMinutes.injEq] using h
      | withHours | secondsOnly => simp [fields] at hlength
  | secondsOnly seconds millis =>
      cases parts' with
      | secondsOnly => simpa only [fields, List.cons.injEq, Prod.mk.injEq, and_true,
          secondsOnly.injEq] using h
      | withHours | withMinutes => simp [fields] at hlength

/-- A text has at most one reading. -/
theorem text_injective {parts parts' : ElapsedParts} (hp : parts.WellFormed)
    (hp' : parts'.WellFormed) (h : parts.text = parts'.text) : parts = parts' :=
  fields_injective (closeFields_inj (numeral_fields hp) (numeral_fields hp') (List.cons.inj h).2)

end ElapsedParts

/-! ## What is written -/

/-- A duration floored to milliseconds, nothing below zero. -/
def elapsedMillis (elapsed : ℤ) : ℕ := (max 0 (elapsed / 1000000)).toNat

/-- The reading of `elapsedText`. -/
def elapsedParts (elapsed : ℤ) : ElapsedParts :=
  let ms := elapsedMillis elapsed
  let hours := ms / (60 * 60 * 1000)
  let minutes := ms / (60 * 1000) % 60
  let seconds := ms / 1000 % 60
  let millis := ms % 1000
  if 0 < hours then
    .withHours (decimal hours) (paddedDecimal 2 minutes) (paddedDecimal 2 seconds)
      (paddedDecimal 3 millis)
  else if 0 < minutes then
    .withMinutes (decimal minutes) (paddedDecimal 2 seconds) (paddedDecimal 3 millis)
  else .secondsOnly (decimal (ms / 1000)) (paddedDecimal 3 millis)

theorem toNat_clamped (elapsed : ℤ) :
    (if elapsed < 0 then 0 else elapsed).toNat / 1000000 = elapsedMillis elapsed := by
  unfold elapsedMillis
  split <;> omega

theorem elapsedText_eq (elapsed : ℤ) : elapsedText elapsed = (elapsedParts elapsed).text := by
  have hplus : ascii "+" = ['+'.toUInt8] := by decide
  have hhour : ascii "h" = ['h'.toUInt8] := by decide
  have hminute : ascii "m" = ['m'.toUInt8] := by decide
  have hpoint : ascii "." = ['.'.toUInt8] := by decide
  have hsecond : ascii "s" = ['s'.toUInt8] := by decide
  simp only [elapsedText, elapsedParts, toNat_clamped, hplus, hhour, hminute, hpoint, hsecond]
  split
  · simp only [ElapsedParts.text, ElapsedParts.fields, closeField, List.flatMap_cons,
      List.flatMap_nil, List.append_assoc, List.append_nil, List.cons_append,
      List.nil_append]
  · split
    · simp only [ElapsedParts.text, ElapsedParts.fields, closeField, List.flatMap_cons,
        List.flatMap_nil, List.append_assoc, List.append_nil, List.cons_append,
        List.nil_append]
    · simp only [ElapsedParts.text, ElapsedParts.fields, closeField, List.flatMap_cons,
        List.flatMap_nil, List.append_assoc, List.append_nil, List.cons_append,
        List.nil_append]

theorem wellFormed_elapsedParts (elapsed : ℤ) : (elapsedParts elapsed).WellFormed := by
  have hmillis : elapsedMillis elapsed % 1000 < 10 ^ 3 := Nat.mod_lt _ (by decide)
  have hminutes : elapsedMillis elapsed / (60 * 1000) % 60 < 10 ^ 2 := by omega
  simp only [elapsedParts]
  split
  · exact ⟨numeral_decimal _, ⟨numeral_paddedDecimal _ _,
      length_paddedDecimal (by decide) hminutes⟩, numeral_paddedDecimal _ _,
      numeral_paddedDecimal _ _, length_paddedDecimal (by decide) hmillis⟩
  · split
    · exact ⟨numeral_decimal _, numeral_paddedDecimal _ _, numeral_paddedDecimal _ _,
        length_paddedDecimal (by decide) hmillis⟩
    · exact ⟨numeral_decimal _, numeral_paddedDecimal _ _,
        length_paddedDecimal (by decide) hmillis⟩

/-- The fields carry at 60 and 1000 without loss. -/
theorem decode_elapsedParts (elapsed : ℤ) :
    (elapsedParts elapsed).decode = elapsedMillis elapsed := by
  simp only [elapsedParts]
  split
  · simp only [ElapsedParts.decode, readDecimal_decimal, readDecimal_paddedDecimal]
    omega
  · split
    · simp only [ElapsedParts.decode, readDecimal_decimal, readDecimal_paddedDecimal]
      omega
    · simp only [ElapsedParts.decode, readDecimal_decimal, readDecimal_paddedDecimal]
      omega

/-- The largest hour count of an `int64_t` has seven digits. -/
theorem length_elapsedText {elapsed : ℤ} (h : FitsInt64 elapsed) :
    (elapsedText elapsed).length ≤ 32 := by
  have hms : elapsedMillis elapsed < 2 ^ 63 / 1000000 + 1 := by
    obtain ⟨-, hhi⟩ := h
    unfold elapsedMillis
    omega
  have hhours : (decimal (elapsedMillis elapsed / (60 * 60 * 1000))).length ≤ 7 :=
    length_decimal_le (by decide) (by omega)
  have hminutes : (decimal (elapsedMillis elapsed / (60 * 1000) % 60)).length ≤ 2 :=
    length_decimal_le (by decide) (by omega)
  have hseconds : (decimal (elapsedMillis elapsed / 1000)).length ≤ 13 :=
    length_decimal_le (by decide) (by omega)
  have htwo : ∀ n, (paddedDecimal 2 (n % 60)).length = 2 := fun n =>
    length_paddedDecimal (by decide) (by omega)
  have hthree : ∀ n, (paddedDecimal 3 (n % 1000)).length = 3 := fun n =>
    length_paddedDecimal (by decide) (by omega)
  rw [elapsedText_eq]
  simp only [elapsedParts]
  split
  · simp only [ElapsedParts.text, ElapsedParts.fields, closeField, List.flatMap_cons,
      List.flatMap_nil, List.length_cons, List.length_append, List.length_nil, htwo, hthree]
    omega
  · split
    · simp only [ElapsedParts.text, ElapsedParts.fields, closeField, List.flatMap_cons,
        List.flatMap_nil, List.length_cons, List.length_append, List.length_nil, htwo, hthree]
      omega
    · simp only [ElapsedParts.text, ElapsedParts.fields, closeField, List.flatMap_cons,
        List.flatMap_nil, List.length_cons, List.length_append, List.length_nil, hthree]
      omega

/-- What `elapsed()` gives after a write into a fresh buffer. -/
def writtenElapsed (elapsed : ℤ) : Text := (TimeContext.setElapsed elapsed {}).elapsed

theorem writtenElapsed_eq {elapsed : ℤ} (h : FitsInt64 elapsed) :
    writtenElapsed elapsed = elapsedText elapsed := by
  have hlength := length_elapsedText h
  simp only [writtenElapsed, TimeContext.setElapsed, TimeContext.elapsed, formatElapsed,
    List.length_replicate]
  rw [min_eq_left hlength, List.take_of_length_le hlength, List.take_left]

/-- The text is whole, and reads back as the milliseconds in one way. -/
structure ElapsedExact (elapsed : ℤ) : Prop where
  fits : (elapsedText elapsed).length ≤ 32
  whole : writtenElapsed elapsed = elapsedText elapsed
  reads : ∃! parts : ElapsedParts, parts.WellFormed ∧ parts.text = writtenElapsed elapsed
  decodes : ∀ parts : ElapsedParts, parts.WellFormed → parts.text = writtenElapsed elapsed →
    (parts.decode : ℤ) = max 0 (elapsed / 1000000)

theorem formatElapsed_exact {elapsed elapsed' : ℤ} (h : FitsInt64 elapsed)
    (h' : FitsInt64 elapsed') :
    ElapsedExact elapsed ∧
      (writtenElapsed elapsed = writtenElapsed elapsed' ↔
        max 0 (elapsed / 1000000) = max 0 (elapsed' / 1000000)) := by
  have hexact : ∀ {d : ℤ}, FitsInt64 d → ElapsedExact d := by
    intro d hd
    have hwritten := (writtenElapsed_eq hd).trans (elapsedText_eq d)
    have hunique : ∀ parts : ElapsedParts, parts.WellFormed → parts.text = writtenElapsed d →
        parts = elapsedParts d := fun parts hparts htext =>
      ElapsedParts.text_injective hparts (wellFormed_elapsedParts d) (htext.trans hwritten)
    refine ⟨length_elapsedText hd, writtenElapsed_eq hd, ⟨elapsedParts d, ?_, ?_⟩, ?_⟩
    · exact ⟨wellFormed_elapsedParts d, hwritten.symm⟩
    · exact fun parts hparts => hunique parts hparts.1 hparts.2
    · intro parts hparts htext
      rw [hunique parts hparts htext, decode_elapsedParts, elapsedMillis]
      exact Int.toNat_of_nonneg (le_max_left _ _)
  refine ⟨hexact h, fun hsame => ?_, fun hsame => ?_⟩
  · obtain ⟨parts, ⟨hparts, htext⟩, -⟩ := (hexact h).reads
    rw [← (hexact h).decodes parts hparts htext]
    exact (hexact h').decodes parts hparts (htext.trans hsame)
  · have hms : elapsedMillis elapsed = elapsedMillis elapsed' := congrArg Int.toNat hsame
    rw [writtenElapsed_eq h, writtenElapsed_eq h', elapsedText_eq, elapsedText_eq, elapsedParts,
      elapsedParts, hms]

/-- The longest run of the clock, and a moment before the start. -/
theorem formatElapsed_extremes :
    ElapsedExact (2 ^ 63 - 1) ∧
      (writtenElapsed (2 ^ 63 - 1) = writtenElapsed (-1) ↔
        max 0 ((2 ^ 63 - 1 : ℤ) / 1000000) = max 0 (-1 / 1000000)) :=
  formatElapsed_exact (by decide) (by decide)

end Unlog.Render
