import Midl.Token.Run

/-!
# What a literal run is

`Run.ofBytes?` follows a run from its first byte to its last. Following a run through more bytes
than belong to it takes exactly the bytes that do, and a run that is followed by nothing literal
is taken whole. So the kind of token that a stretch of bytes is, `Run.kindOf?`, does not depend on
what surrounds it.
-/

namespace Midl

/-- What holds of the bytes of all numbers up to 255 holds of every byte. -/
theorem Byte.forall_of_forall_lt {P : UInt8 → Prop} (h : ∀ n < 256, P (UInt8.ofNat n))
    (b : UInt8) : P b := by
  have hb := h b.toNat b.toNat_lt
  rwa [UInt8.ofNat_toNat] at hb

/-- A literal byte does not stand for a character that encloses or joins anything. -/
theorem Byte.toChar_ne_of_isLiteral : ∀ b : UInt8, isLiteral b = true →
    toChar b ≠ '"' ∧ toChar b ≠ ' ' ∧ toChar b ≠ '|' ∧ toChar b ≠ '(' :=
  Byte.forall_of_forall_lt (by decide +kernel)

namespace Run

/-- The run that some bytes are, if they are one. -/
def ofBytes? : List UInt8 → Option Run
  | [] => none
  | b :: bs => if Byte.isLiteral b then bs.foldlM next? (ofByte b) else none

/-- The kind of token that some bytes are, if they are a run. -/
def kindOf? (bytes : List UInt8) : Option TokenKind :=
  (ofBytes? bytes).map fun run => run.kind (Byte.text bytes)

/-- What is taken of a run takes it to where it ends. -/
theorem foldlM_taken (run : Run) (bs : List UInt8) :
    (run.follow bs).taken.foldlM next? run = some (run.follow bs).run := by
  induction bs generalizing run with
  | nil => rfl
  | cons b bs ih =>
    rw [follow]
    cases h : run.next? b with
    | none => rfl
    | some run' =>
      show (run.next? b).bind (fun r => (run'.follow bs).taken.foldlM next? r) = _
      rw [h]
      exact ih run'

/-- A run is taken up to the first byte that belongs to no run. -/
theorem follow_append_of_foldlM {run run' : Run} {bs rest : List UInt8}
    (h : bs.foldlM next? run = some run') (hrest : ∀ b ∈ rest.head?, Byte.isLiteral b = false) :
    run.follow (bs ++ rest) = ⟨run', bs, rest⟩ := by
  induction bs generalizing run with
  | nil =>
    obtain rfl : run = run' := by simpa using h
    cases rest with
    | nil => rfl
    | cons b rest =>
      have hb : run.next? b = none := by simp [next?, hrest b rfl]
      rw [List.nil_append, follow, hb]
  | cons b bs ih =>
    have hstep : (run.next? b).bind (fun r => bs.foldlM next? r) = some run' := h
    obtain ⟨r, hr, hbs⟩ := Option.bind_eq_some_iff.mp hstep
    rw [List.cons_append, follow, hr]
    simp only [ih hbs]

/-- A literal byte goes on with any run. -/
theorem exists_next? (run : Run) {b : UInt8} (h : Byte.isLiteral b = true) :
    ∃ run', run.next? b = some run' := by
  rw [← Option.isSome_iff_exists]
  cases run <;> simp only [next?, h] <;> grind

/-- Literal bytes always make a run. -/
theorem exists_foldlM {bs : List UInt8} (h : ∀ b ∈ bs, Byte.isLiteral b = true) (run : Run) :
    ∃ run', bs.foldlM next? run = some run' := by
  induction bs generalizing run with
  | nil => exact ⟨run, rfl⟩
  | cons b bs ih =>
    obtain ⟨hb, hbs⟩ := List.forall_mem_cons.mp h
    obtain ⟨next, hnext⟩ := run.exists_next? hb
    obtain ⟨run', hrun'⟩ := ih hbs next
    refine ⟨run', ?_⟩
    rw [List.foldlM_cons, hnext]
    exact hrun'

/-- Literal bytes are a token. -/
theorem exists_kindOf? {bytes : List UInt8} (hne : bytes ≠ [])
    (h : ∀ b ∈ bytes, Byte.isLiteral b = true) : ∃ k, kindOf? bytes = some k := by
  cases bytes with
  | nil => exact absurd rfl hne
  | cons b bs =>
    obtain ⟨hb, hbs⟩ := List.forall_mem_cons.mp h
    obtain ⟨run, hrun⟩ := exists_foldlM hbs (ofByte b)
    exact ⟨_, by rw [kindOf?, ofBytes?, if_pos hb, hrun]; rfl⟩

/-- Every byte of a run is literal. -/
theorem isLiteral_of_foldlM {run run' : Run} {bs : List UInt8}
    (h : bs.foldlM next? run = some run') : ∀ b ∈ bs, Byte.isLiteral b = true := by
  induction bs generalizing run with
  | nil => simp
  | cons b bs ih =>
    have hstep : (run.next? b).bind (fun r => bs.foldlM next? r) = some run' := h
    obtain ⟨r, hr, hbs⟩ := Option.bind_eq_some_iff.mp hstep
    intro x hx
    rcases List.mem_cons.mp hx with rfl | hx
    · cases hb : Byte.isLiteral x with
      | true => rfl
      | false => simp [next?, hb] at hr
    · exact ih hbs x hx

/-- A run is made of literal bytes. -/
theorem isLiteral_of_ofBytes? {run : Run} {bytes : List UInt8} (h : ofBytes? bytes = some run) :
    ∀ b ∈ bytes, Byte.isLiteral b = true := by
  cases bytes with
  | nil => simp
  | cons b bs =>
    rw [ofBytes?] at h
    split at h
    · rename_i hb
      intro x hx
      rcases List.mem_cons.mp hx with rfl | hx
      · exact hb
      · exact isLiteral_of_foldlM h x hx
    · cases h

/-- A token that a word is read as is spelled like the word. -/
theorem text_ofWord (word : String) : (TokenKind.ofWord word).text = word := by
  rw [TokenKind.ofWord]
  split
  · rename_i keyword h
    exact Keyword.text_of_ofText? h
  · split
    · rename_i name h
      exact AttributeKind.keyword_of_ofKeyword? h
    · rfl

/-- The token that a run is read as is spelled like the run. -/
theorem text_kind (run : Run) (text : String) : (run.kind text).text = text := by
  cases run with
  | zero => rfl
  | decimal => rfl
  | hex => rfl
  | word => exact text_ofWord text
  | dotted =>
    rw [kind]
    split
    · rename_i h
      rw [h]
      rfl
    · rfl

/-- A run is not read as a string or as the end of the input. -/
theorem kind_ne (run : Run) (text : String) :
    run.kind text ≠ .eof ∧ ∀ s, run.kind text ≠ .string s := by
  cases run with
  | zero => simp [kind]
  | decimal => simp [kind]
  | hex => simp [kind]
  | word =>
    rw [kind, TokenKind.ofWord]
    split
    · simp
    · split <;> simp
  | dotted =>
    rw [kind]
    split <;> simp

/-- A token that bytes are read as is spelled like the bytes. -/
theorem text_of_kindOf? {bytes : List UInt8} {k : TokenKind} (h : kindOf? bytes = some k) :
    k.text = Byte.text bytes := by
  obtain ⟨run, -, rfl⟩ := Option.map_eq_some_iff.mp h
  exact text_kind run _

/-- So is a token that is a run. -/
theorem isLiteral_of_kindOf? {bytes : List UInt8} {k : TokenKind} (h : kindOf? bytes = some k) :
    ∀ b ∈ bytes, Byte.isLiteral b = true := by
  obtain ⟨run, hrun, -⟩ := Option.map_eq_some_iff.mp h
  exact isLiteral_of_ofBytes? hrun

/-- The characters of a token that bytes are read as stand for literal bytes. -/
theorem isLiteral_of_mem_text {bytes : List UInt8} {k : TokenKind} {c : Char}
    (h : kindOf? bytes = some k) (hc : c ∈ k.text.toList) :
    ∃ b, Byte.isLiteral b = true ∧ c = Byte.toChar b := by
  rw [text_of_kindOf? h, Byte.text, String.toList_ofList] at hc
  obtain ⟨b, hb, rfl⟩ := List.mem_map.mp hc
  exact ⟨b, isLiteral_of_kindOf? h b hb, rfl⟩

/-! ## Numbers -/

/-- Whether a run is a number so far. -/
def isNumber : Run → Bool
  | zero | decimal | hex => true
  | word | dotted => false

/-- A letter makes no number. -/
theorem isNumber_ofLetter (b : UInt8) : (ofLetter b).isNumber = false := by
  unfold ofLetter
  split <;> rfl

/-- Hexadecimal digits are ASCII. -/
theorem lt_of_isHexDigit : ∀ b : UInt8, Byte.isHexDigit b = true → b.toNat < 128 :=
  Byte.forall_of_forall_lt (by decide +kernel)

/-- Digits are ASCII. -/
theorem lt_of_isDigit (b : UInt8) (h : Byte.isDigit b = true) : b.toNat < 128 :=
  lt_of_isHexDigit b (by simp [Byte.isHexDigit, h])

/-- A byte that leaves a run a number is ASCII, and the run was a number before it. -/
theorem isNumber_of_next? {run run' : Run} {b : UInt8} (h : run.next? b = some run')
    (hnumber : run'.isNumber = true) : run.isNumber = true ∧ b.toNat < 128 := by
  have hletter : ∀ {r : Run}, some (ofLetter b) = some r → r.isNumber = true → False := by
    rintro _ ⟨⟩ hr
    rw [isNumber_ofLetter] at hr
    cases hr
  unfold next? at h
  split at h
  · cases h
  · cases run with
    | zero =>
      refine ⟨rfl, ?_⟩
      dsimp only at h
      split at h
      · exact lt_of_isDigit b ‹_›
      · split at h
        · rename_i hx
          rcases Bool.or_eq_true_iff.mp hx with hx | hx
          · rw [of_decide_eq_true hx]
            decide
          · rw [of_decide_eq_true hx]
            decide
        · exact (hletter h hnumber).elim
    | decimal =>
      refine ⟨rfl, ?_⟩
      dsimp only at h
      split at h
      · exact lt_of_isDigit b ‹_›
      · exact (hletter h hnumber).elim
    | hex =>
      refine ⟨rfl, ?_⟩
      dsimp only at h
      split at h
      · exact lt_of_isHexDigit b ‹_›
      · exact (hletter h hnumber).elim
    | word => exact (hletter h hnumber).elim
    | dotted =>
      obtain rfl : dotted = run' := Option.some.inj h
      cases hnumber

/-- The bytes of a number are ASCII. -/
theorem lt_of_foldlM {run run' : Run} {bs : List UInt8} (h : bs.foldlM next? run = some run')
    (hnumber : run'.isNumber = true) : run.isNumber = true ∧ ∀ b ∈ bs, b.toNat < 128 := by
  induction bs generalizing run with
  | nil =>
    obtain rfl : run = run' := by simpa using h
    exact ⟨hnumber, by simp⟩
  | cons b bs ih =>
    have hstep : (run.next? b).bind (fun r => bs.foldlM next? r) = some run' := h
    obtain ⟨r, hr, hbs⟩ := Option.bind_eq_some_iff.mp hstep
    obtain ⟨hrnumber, hrest⟩ := ih hbs
    obtain ⟨hrun, hb⟩ := isNumber_of_next? hr hrnumber
    exact ⟨hrun, by simpa [hb] using hrest⟩

/-- Only a run that is a number is read as a number. -/
theorem isNumber_of_kind {run : Run} {text s : String} (h : run.kind text = .number s) :
    run.isNumber = true := by
  cases run with
  | zero => rfl
  | decimal => rfl
  | hex => rfl
  | word =>
    rw [kind, TokenKind.ofWord] at h
    split at h
    · cases h
    · split at h <;> cases h
  | dotted =>
    rw [kind] at h
    split at h <;> cases h

/-- What is read as a number is ASCII. -/
theorem lt_of_kindOf?_number {bytes : List UInt8} {s : String}
    (h : kindOf? bytes = some (.number s)) : ∀ b ∈ bytes, b.toNat < 128 := by
  obtain ⟨run, hrun, hkind⟩ := Option.map_eq_some_iff.mp h
  have hnumber := isNumber_of_kind hkind
  cases bytes with
  | nil => cases hrun
  | cons b bs =>
    rw [ofBytes?] at hrun
    split at hrun
    · obtain ⟨hfirst, hrest⟩ := lt_of_foldlM hrun hnumber
      have hb : b.toNat < 128 := by
        unfold ofByte at hfirst
        split at hfirst
        · rename_i hzero
          rw [hzero]
          decide
        · split at hfirst
          · exact lt_of_isDigit b ‹_›
          · rw [isNumber_ofLetter] at hfirst
            cases hfirst
      simpa [hb] using hrest
    · cases hrun

end Run

end Midl
