import Midl.Proofs.Continuation
import Midl.Proofs.Online
import Midl.Proofs.Streaming
import Midl.Proofs.Walk

/-!
# Sources one after the other

Two sources that can be read can be read one after the other, with a line feed in between. For the
tokens this is a matter of the lexer alone. For the declarations it has to be shown that none of
those of the first source, read where the second one follows, takes a token of the second.

A declaration that ended where the tokens did cannot have asked for more. It did look at the next
token if all it could still take was a semicolon, and the second source does not begin with one.
`Closing` says this of all that a declaration may end with, and is kept when something is put in
front: what comes before the end has not come to the end of the tokens, so that it is read the same
way in front of other tokens.
-/

namespace Midl.Parser

/-- The tokens of `t` begin like those of `s` and go on with `us`, where no semicolon comes next, up
to the end of the input. -/
structure Joins (positions : Position → Position → Prop) (s t : State) (us : List Token) :
    Prop where
  starts : StartsLike positions s t us
  finished : ∃ pos, t.stop = .finished pos
  parted : ∀ u ∈ us.head?, u.kind ≠ .mark .semicolon

/-- On up to `bound` tokens, what `p` succeeds with `q` succeeds with where others follow, which
are left. -/
def Seamless (bound : Nat) (positions : Position → Position → Prop) (p q : Parser α) : Prop :=
  ∀ s t us a s', s.left ≤ bound → Joins positions s t us → p s = .ok a s' →
    ∃ t', q t = .ok a t' ∧ Joins positions s' t' us

/-- What a declaration ends with takes no token of what follows, and does not succeed without
tokens. -/
structure Closing (bound : Nat) (positions : Position → Position → Prop) (p q : Parser α) :
    Prop where
  online : Online bound positions p q
  seamless : Seamless bound positions p q
  demanding : ∀ s a s', s.tokens = [] → p s ≠ .ok a s'

section

variable {positions : Position → Position → Prop} {bound : Nat} {s t : State} {us : List Token}

/-- Short of the end of the tokens nothing that follows is noticed. -/
theorem OnlineAt.joins {p q : Parser α} {a : α} {s' : State} (h : OnlineAt positions p q s)
    (hjoins : Joins positions s t us) (hrun : p s = .ok a s') (hne : s'.tokens ≠ []) :
    ∃ t', q t = .ok a t' ∧ Joins positions s' t' us := by
  have hsame := h.same t us hjoins.starts
  rw [hrun] at hsame
  obtain ⟨hresult, hstop⟩ := hsame (.inl hne)
  generalize hrun' : q t = result at hresult hstop
  cases hresult with
  | ok _ hstarts => exact ⟨_, rfl, hstarts, hstop ▸ hjoins.finished, hjoins.parted⟩

/-- Moving past a token, there is always something to arrive at. -/
theorem Joins.advance (h : Joins positions s t us) (hne : s.tokens ≠ []) {s' : State}
    (hrun : advance s = .ok () s') :
    ∃ t', Parser.advance t = .ok () t' ∧ Joins positions s' t' us := by
  refine ⟨_, arrive_eq_ok fun _ => h.finished, ?_, ?_, h.parted⟩
  · unfold StartsLike
    rw [tokens_arrive, tokens_of_advance hrun]
    exact h.starts.tail (.inl hne)
  · rw [stop_arrive]
    exact h.finished

/-! ## Parsers that take nothing of what follows -/

/-- Reading nothing does not notice what follows. -/
theorem Seamless.pure (a : α) : Seamless bound positions (pure a) (Pure.pure a) := by
  intro s t us a' s' _ hjoins hrun
  obtain ⟨rfl, rfl⟩ := EStateM.Result.ok.inj hrun
  exact ⟨t, rfl, hjoins⟩

/-- Neither does recording events. -/
theorem Seamless.note (events : List Event) :
    Seamless bound positions (note events) (Parser.note events) := by
  intro s t us a s' _ hjoins hrun
  obtain ⟨-, rfl⟩ := EStateM.Result.ok.inj hrun
  exact ⟨_, rfl, hjoins.starts, hjoins.finished, hjoins.parted⟩

/-- Two steps that do not notice what follows make one. -/
theorem Seamless.bind {p q : Parser α} {f g : α → Parser β} (honline : Online bound positions p q)
    (hp : Seamless bound positions p q) (hf : ∀ a, Seamless bound positions (f a) (g a)) :
    Seamless bound positions (p >>= f) (q >>= g) := by
  intro s t us b s'' hs hjoins hrun
  obtain ⟨a, s', hrun_p, hrun_f⟩ := ok_of_bind hrun
  have hs' := Nat.le_trans ((honline s hs).left_le hrun_p) hs
  obtain ⟨t', hrun_q, hjoins'⟩ := hp s t us a s' hs hjoins hrun_p
  rw [bind_of_ok hrun_q]
  exact hf a s' t' us b s'' hs' hjoins' hrun_f

/-- A result may be changed on the way. -/
theorem Seamless.map {p q : Parser α} (f : α → β) (hp : Seamless bound positions p q) :
    Seamless bound positions (f <$> p) (f <$> q) := by
  intro s t us b s' hs hjoins hrun
  obtain ⟨a, hrun_p, rfl⟩ := ok_of_map hrun
  obtain ⟨t', hrun_q, hjoins'⟩ := hp s t us a s' hs hjoins hrun_p
  exact ⟨t', by rw [← bind_pure_comp, bind_of_ok hrun_q]; rfl, hjoins'⟩

/-- With tokens left, both sides look at the same kind of token. -/
theorem Joins.kind (h : Joins positions s t us) (hne : s.tokens ≠ []) :
    t.current.kind = s.current.kind :=
  (h.starts.current (.inl hne)).1.symm

/-- With none left, the other side does not look at a semicolon. -/
theorem Joins.kind_ne (h : Joins positions s t us) (hnil : s.tokens = []) :
    t.current.kind ≠ .mark .semicolon := by
  obtain ⟨⟨ts, htokens, hts⟩, -, hparted⟩ := h
  rw [hnil, List.forall₂_nil_left_iff] at hts
  subst hts
  cases us with
  | nil =>
    rw [State.kind_of_nil htokens]
    exact nofun
  | cons u us =>
    rw [State.current_of_cons htokens]
    exact hparted u rfl

/-- A mark is not the end of the input. -/
theorem ne_nil_of_kind {mark : Mark} (h : s.current.kind = .mark mark) : s.tokens ≠ [] := by
  intro hnil
  rw [State.kind_of_nil hnil] at h
  cases h

/-- A semicolon that may follow is not taken from what comes next. -/
theorem Seamless.optionalSemicolon : Seamless bound positions
    (discard (eat (.mark .semicolon))) (discard (eat (.mark .semicolon))) := by
  refine .map _ fun s t us a s' hs hjoins hrun => ?_
  unfold eat at hrun ⊢
  rw [peekBind] at hrun ⊢
  by_cases hkind : s.current.kind = .mark .semicolon
  · have hne := ne_nil_of_kind hkind
    rw [if_pos hkind] at hrun
    obtain ⟨_, s₁, hadvance, hreturn⟩ := ok_of_bind hrun
    obtain ⟨rfl, rfl⟩ := EStateM.Result.ok.inj hreturn
    obtain ⟨t', hadvance', hjoins'⟩ := hjoins.advance hne hadvance
    rw [if_pos (hjoins.kind hne ▸ hkind), bind_of_ok hadvance']
    exact ⟨t', rfl, hjoins'⟩
  · have hkind' : t.current.kind ≠ .mark .semicolon := by
      by_cases hnil : s.tokens = []
      · exact hjoins.kind_ne hnil
      · rwa [hjoins.kind hnil]
    rw [if_neg hkind] at hrun
    obtain ⟨rfl, rfl⟩ := EStateM.Result.ok.inj hrun
    rw [if_neg hkind']
    exact ⟨t, rfl, hjoins⟩

/-- A token inside parentheses is one of the tokens there are. -/
theorem Seamless.pragmaToken (depth : Nat) :
    Seamless bound positions (pragmaToken depth) (Parser.pragmaToken depth) := by
  by_cases hdepth : depth = 0
  · subst hdepth
    exact .pure none
  intro s t us found s' hs hjoins hrun
  unfold Parser.pragmaToken at hrun ⊢
  rw [if_neg hdepth, peekBind] at hrun ⊢
  have hne : s.tokens ≠ [] := by
    intro hnil
    rw [State.kind_of_nil hnil] at hrun
    cases hrun
  rw [hjoins.kind hne]
  generalize s.current.kind = kind at hrun ⊢
  have hrest : ∀ depth : Nat, (do advance; return some (kind.text, depth) : Parser _) s =
      .ok found s' → ∃ t', (do advance; return some (kind.text, depth) : Parser _) t =
        .ok found t' ∧ Joins positions s' t' us := by
    intro depth hrun
    obtain ⟨_, s₁, hadvance, hreturn⟩ := ok_of_bind hrun
    obtain ⟨rfl, rfl⟩ := EStateM.Result.ok.inj hreturn
    obtain ⟨t', hadvance', hjoins'⟩ := hjoins.advance hne hadvance
    exact ⟨t', bind_of_ok hadvance', hjoins'⟩
  cases kind with
  | eof => cases hrun
  | mark mark =>
    cases mark with
    | _ => exact hrest _ hrun
  | _ => exact hrest _ hrun

/-- Rounds that take nothing of what follows go on where there are tokens, and nowhere else. -/
theorem Seamless.manyFrom {item item' : σ → Parser (Option (α × σ))}
    (hitem : ∀ carried, Seamless bound positions (item carried) (item' carried)) (carried : σ) :
    Seamless bound positions (manyFrom item carried) (Parser.manyFrom item' carried) := by
  intro s t us as s' hs hjoins hrun
  induction hn : s.left using Nat.strongRecOn generalizing s t as carried with
  | ind n ih =>
    rcases manyFrom_cases hrun with ⟨hround, rfl⟩ |
      ⟨a, next, s₁, others, hround, hless, hothers, rfl⟩ | ⟨a, next, hround, hless, rfl⟩
    · obtain ⟨t', hround', hjoins'⟩ := hitem carried s t us _ _ hs hjoins hround
      exact ⟨t', manyFrom_of_none hround', hjoins'⟩
    · obtain ⟨t₁, hround', hjoins₁⟩ := hitem carried s t us _ _ hs hjoins hround
      obtain ⟨t', hothers', hjoins'⟩ :=
        ih s₁.left (hn ▸ hless) next s₁ t₁ others (by omega) hjoins₁ hothers rfl
      refine ⟨t', ?_, hjoins'⟩
      have hleft := hjoins.starts.left
      have hleft₁ := hjoins₁.starts.left
      rw [manyFrom_of_less hround' (by omega), ← bind_pure_comp, bind_of_ok hothers']
      rfl
    · obtain ⟨t', hround', hjoins'⟩ := hitem carried s t us _ _ hs hjoins hround
      have hleft := hjoins.starts.left
      have hleft' := hjoins'.starts.left
      exact ⟨t', manyFrom_of_stuck hround' (by omega), hjoins'⟩

/-! ## Ends of declarations -/

/-- Something may come before an end. If it came to the end of the tokens, there would be none
left for the end to be read from. -/
theorem Closing.bind {p q : Parser α} {f g : α → Parser β} (hp : Online bound positions p q)
    (hf : ∀ a, Closing bound positions (f a) (g a)) :
    Closing bound positions (p >>= f) (q >>= g) where
  online s hs := (hp s hs).bind fun a s' hrun =>
    (hf a).online s' (Nat.le_trans ((hp s hs).left_le hrun) hs)
  seamless s t us b s'' hs hjoins hrun := by
    obtain ⟨a, s', hrun_p, hrun_f⟩ := ok_of_bind hrun
    have hne : s'.tokens ≠ [] := fun hnil => (hf a).demanding s' b s'' hnil hrun_f
    obtain ⟨t', hrun_q, hjoins'⟩ := (hp s hs).joins hjoins hrun_p hne
    rw [bind_of_ok hrun_q]
    have hs' := Nat.le_trans ((hp s hs).left_le hrun_p) hs
    exact (hf a).seamless s' t' us b s'' hs' hjoins' hrun_f
  demanding s b s'' hnil hrun := by
    obtain ⟨a, s', hrun_p, hrun_f⟩ := ok_of_bind hrun
    have hzero : s.left = 0 := by rw [s.left_eq, hnil, List.length_nil]
    have hle := (hp s (hzero ▸ Nat.zero_le bound)).left_le hrun_p
    exact (hf a).demanding s' b s'' (State.tokens_eq_nil (by omega)) hrun_f

/-- Something that takes nothing of what follows may come after an end. -/
theorem Closing.andThen {p q : Parser α} {f g : α → Parser β} (hp : Closing bound positions p q)
    (honline : ∀ a, Online bound positions (f a) (g a))
    (hf : ∀ a, Seamless bound positions (f a) (g a)) :
    Closing bound positions (p >>= f) (q >>= g) where
  online s hs := (hp.online s hs).bind fun a s' hrun =>
    honline a s' (Nat.le_trans ((hp.online s hs).left_le hrun) hs)
  seamless := hp.seamless.bind hp.online hf
  demanding s b s'' hnil hrun := by
    obtain ⟨a, s', hrun_p, -⟩ := ok_of_bind hrun
    exact hp.demanding s a s' hnil hrun_p

/-- A mark that has to be there closes a declaration. -/
theorem Closing.expect (mark : Mark) :
    Closing bound positions (expect (.mark mark)) (Parser.expect (.mark mark)) where
  online := (Parser.online bound positions).expect _
  seamless s t us a s' hs hjoins hrun := by
    unfold Parser.expect at hrun ⊢
    rw [peekBind] at hrun ⊢
    split at hrun
    · rename_i hkind
      have hne := ne_nil_of_kind hkind
      rw [if_pos (hjoins.kind hne ▸ hkind)]
      exact hjoins.advance hne hrun
    · cases hrun
  demanding s a s' hnil hrun := by
    unfold Parser.expect at hrun
    rw [peekBind, State.kind_of_nil hnil] at hrun
    cases hrun

/-- So does the group of a pragma, which ends in a parenthesis. -/
theorem Closing.parenthesised :
    Closing bound positions (manyFrom pragmaToken 1) (manyFrom pragmaToken 1) where
  online := (Parser.online bound positions).completion.parenthesised
  seamless := .manyFrom .pragmaToken 1
  demanding s a s' hnil hrun := by
    have hround : pragmaToken 1 s = .error (.unexpected "')'" s.current) s := by
      unfold pragmaToken
      rw [if_neg Nat.one_ne_zero, peekBind, State.kind_of_nil hnil]
      rfl
    rw [manyFrom_of_error hround] at hrun
    cases hrun

/-- A parser that always fails ends nothing. -/
theorem Closing.of_error {p q : Parser α} (honline : Online bound positions p q)
    (hp : ∀ s a s', p s ≠ .ok a s') : Closing bound positions p q where
  online := honline
  seamless s _ _ a s' _ _ hrun := absurd hrun (hp s a s')
  demanding s a s' _ := hp s a s'

/-- All declarations end in one of these ways. -/
theorem closing (bound : Nat) (positions : Position → Position → Prop) :
    Completion (Online bound positions) (Closing bound positions) positions where
  parts := online bound positions
  weaken h := h.online
  bind := .bind
  map f h := by
    rw [← bind_pure_comp, ← bind_pure_comp]
    exact h.andThen (fun a => (online bound positions).pure (f a)) fun a => .pure (f a)
  expect := .expect
  parenthesised := .parenthesised
  optionalSemicolon f h := by
    have hall := online bound positions
    refine h.andThen (fun a => hall.bind (hall.discardEat _) fun _ => hall.pure (f a)) fun a => ?_
    exact Seamless.optionalSemicolon.bind (hall.discardEat _) fun _ => .pure (f a)
  emptyImport hpos := .of_error ((online bound positions).emptyImport hpos) fun _ _ _ => nofun

/-- What moves on first and closes from there closes with one more token. -/
theorem Closing.of_moving (htotal : ∀ pos, ∃ pos', positions pos pos') {p q : Parser α}
    (h : Moving (Closing bound positions) positions p q) :
    Closing (bound + 1) positions p q := by
  obtain ⟨f, g, rfl, rfl, hfg⟩ := h
  have hdemanding : ∀ pos s a s', s.tokens = [] → f pos s ≠ .ok a s' := by
    intro pos
    obtain ⟨pos', hpos⟩ := htotal pos
    exact (hfg pos pos' hpos).demanding
  refine ⟨.of_moving htotal ⟨f, g, rfl, rfl, fun pos pos' hpos => (hfg pos pos' hpos).online⟩,
    fun s t us a s' hs hjoins hrun => ?_, fun s a s' hnil hrun => ?_⟩
  · obtain ⟨_, s₁, hadvance, hrun⟩ := ok_of_bind (p := advance) hrun
    have hne₁ : s₁.tokens ≠ [] := fun hnil => hdemanding _ s₁ a s' hnil hrun
    have hne : s.tokens ≠ [] := by
      intro hnil
      rw [tokens_of_advance hadvance, hnil] at hne₁
      exact hne₁ rfl
    obtain ⟨t₁, hadvance', hjoins₁⟩ := hjoins.advance hne hadvance
    have hleft := left_of_advance hadvance
    obtain ⟨t', hrun', hjoins'⟩ := (hfg _ _ (hjoins.starts.current (.inl hne)).2).seamless
      s₁ t₁ us a s' (by omega) hjoins₁ hrun
    refine ⟨t', ?_, hjoins'⟩
    show (advance >>= fun _ => g t.current.position) t = _
    rw [bind_of_ok hadvance', hrun']
  · obtain ⟨_, s₁, hadvance, hrun⟩ := ok_of_bind (p := advance) hrun
    have hnil₁ : s₁.tokens = [] := by rw [tokens_of_advance hadvance, hnil, List.tail_nil]
    exact hdemanding _ s₁ a s' hnil₁ hrun

/-- A declaration takes no token of what follows. -/
theorem Closing.declaration (htotal : ∀ pos, ∃ pos', positions pos pos') {depth depth' : Nat}
    (hdepth : bound ≤ depth) (hdepth' : bound ≤ depth') (nested : Bool) :
    Closing bound positions (declaration depth nested) (Parser.declaration depth' nested) := by
  induction bound generalizing depth depth' nested with
  | zero =>
    have hfails : ∀ s a s', s.tokens = [] → Parser.declaration depth nested s ≠ .ok a s' := by
      intro s a s' hnil hrun
      rw [declaration_of_nil depth nested hnil] at hrun
      cases hrun
    refine ⟨.declaration htotal hdepth hdepth' nested, ?_, hfails⟩
    intro s t us a s' hs _ hrun
    exact absurd hrun (hfails s a s' (State.tokens_eq_nil (Nat.le_zero.mp hs)))
  | succ bound ih =>
    obtain ⟨depth, rfl⟩ := Nat.exists_eq_add_one_of_ne_zero (Nat.ne_zero_of_lt hdepth)
    obtain ⟨depth', rfl⟩ := Nat.exists_eq_add_one_of_ne_zero (Nat.ne_zero_of_lt hdepth')
    have hall := Parser.online (bound + 1) positions
    refine .bind hall.leadingAttributes fun as => .andThen ?_
      (fun ds => hall.bind (.note _) fun _ => hall.pure ds)
      fun ds => (Seamless.note _).bind (.note _) fun _ => .pure ds
    have hinner := (ih (Nat.le_of_succ_le_succ hdepth) (Nat.le_of_succ_le_succ hdepth') true).online
    obtain ⟨f, g, hf, hg, hfg⟩ := (closing bound positions).chosen_cases hinner nested as
    rw [hf, hg]
    refine .bind hall.peek fun kind => ?_
    obtain hmoving | ⟨hf, hg⟩ := hfg kind
    · exact .of_moving htotal hmoving
    · rw [hf, hg]
      exact .of_error (hall.unexpected _) fun _ _ _ => nofun

end

/-! ## Declarations one after the other -/

section

variable {positions : Position → Position → Prop} {s t s' : State} {us : List Token}

/-- What may be declared anywhere may be declared in a library or module. -/
theorem declaration_nested {depth : Nat} {ds : List Declaration}
    (h : declaration depth false s = .ok ds s') (nested : Bool) :
    declaration depth nested s = .ok ds s' := by
  cases depth with
  | zero => cases h
  | succ depth =>
    rw [Parser.declaration] at h ⊢
    obtain ⟨as, s₁, hattributes, h⟩ := ok_of_bind h
    obtain ⟨ds', s₂, hchosen, h⟩ := ok_of_bind h
    have hchosen' : chosen (declaration depth true) nested as s₁ = .ok ds' s₂ := by
      unfold chosen at hchosen ⊢
      rw [peekBind] at hchosen ⊢
      generalize s₁.current.kind = kind at hchosen ⊢
      cases kind with
      | keyword k =>
        cases k with
        | importLibrary => cases hchosen
        | const => cases hchosen
        | _ => exact hchosen
      | _ => exact hchosen
    rw [bind_of_ok hattributes, bind_of_ok hchosen']
    exact h

/-- Where declarations are followed by other tokens, these are read after them. What all of them
together are followed by may be anything that does not begin a declaration. -/
theorem Joins.manyUntil_declaration (htotal : ∀ pos, ∃ pos', positions pos pos')
    {depth depth' : Nat} {dss : List (List Declaration)} {kind : TokenKind}
    (hends : ¬StartsStatement kind) (nested : Bool) (h : Joins positions s t us)
    (hs : s.left ≤ depth) (ht : t.left ≤ depth') (hkinds : ∀ x ∈ s.tokens, x.kind ≠ .eof)
    (hrun : manyUntil .eof (declaration depth false) s = .ok dss s') :
    ∃ t', t'.tokens = us ∧ (∃ pos, t'.stop = .finished pos) ∧ ∀ ess t'',
      manyUntil kind (declaration depth' nested) t' = .ok ess t'' →
      manyUntil kind (declaration depth' nested) t = .ok (dss ++ ess) t'' := by
  induction hn : s.left using Nat.strongRecOn generalizing s t dss with
  | ind n ih =>
    have hleft := h.starts.left
    obtain ⟨hkind, rfl, rfl⟩ | ⟨-, ds, s₁, others, hitem, hless, hothers, rfl⟩ :=
      manyUntil_cases (fun _ _ => left_of_declaration hs) hrun
    · have hnil : s'.tokens = [] := by
        cases htokens : s'.tokens with
        | nil => rfl
        | cons x xs =>
          rw [State.current_of_cons htokens] at hkind
          exact absurd hkind (hkinds x (htokens ▸ List.mem_cons_self))
      obtain ⟨ts, htokens, hts⟩ := h.starts
      rw [hnil, List.forall₂_nil_left_iff] at hts
      subst hts
      exact ⟨t, htokens, h.finished, fun _ _ hrun => hrun⟩
    · have hstarts : StartsStatement s.current.kind := by
        by_contra hrefused
        rw [declaration_of_not_startsStatement depth false hrefused] at hitem
        cases hitem
      have hne : s.tokens ≠ [] := fun hnil =>
        not_startsStatement_eof (State.kind_of_nil hnil ▸ hstarts)
      have hkind : t.current.kind ≠ kind := by
        rw [h.kind hne]
        rintro rfl
        exact hends hstarts
      have hclosing : Closing s.left positions (declaration depth false)
          (declaration depth' false) := .declaration htotal hs (by omega) false
      obtain ⟨t₁, hitem', hjoins₁⟩ :=
        hclosing.seamless s t us ds s₁ (Nat.le_refl _) h hitem
      have hsuffix := (hclosing.online s (Nat.le_refl _)).narrows
      rw [hitem] at hsuffix
      have hleft₁ := hjoins₁.starts.left
      obtain ⟨t', htokens, hstop, hrest⟩ := ih s₁.left (hn ▸ hless) hjoins₁ (by omega) (by omega)
        (fun x hx => hkinds x (hsuffix.subset hx)) hothers rfl
      refine ⟨t', htokens, hstop, fun ess t'' hrun' => ?_⟩
      rw [manyUntil_of_less hkind (declaration_nested hitem' nested) (by omega), ← bind_pure_comp,
        bind_of_ok (hrest ess t'' hrun')]
      rfl

end

end Midl.Parser

namespace Midl

/-! ## Sources -/

/-- A stream that can be read does not begin with a semicolon. -/
theorem TokenStream.kind_ne_of_read {stream : TokenStream} {ds : List Declaration}
    (h : stream.read.result = .ok ds) {t : Token} (ht : t ∈ stream.tokens.head?) :
    t.kind ≠ .mark .semicolon := by
  intro hkind
  obtain ⟨s, dss, s', htokens, -, -, hdss⟩ := exists_manyUntil_of_read h
  have hcurrent : s.current.kind = .mark .semicolon := by
    obtain ⟨ts, hts⟩ := List.head?_eq_some_iff.mp ht
    rw [Parser.State.current_of_cons (htokens.trans hts), hkind]
  rw [Parser.manyUntil_of_error (by simp [hcurrent])
    (Parser.declaration_of_not_startsStatement _ false
      (by simp [hcurrent, Parser.StartsStatement]))] at hdss
  cases hdss

/-- Tokens that begin like those of a stream that can be read do not begin with a semicolon
either. -/
theorem TokenStream.parted_of_read {stream : TokenStream} {ds : List Declaration}
    (h : stream.read.result = .ok ds) {positions : Position → Position → Prop} {us : List Token}
    (halike : List.Forall₂ (Token.Alike positions) stream.tokens us) :
    ∀ u ∈ us.head?, u.kind ≠ .mark .semicolon := by
  intro u hu
  obtain ⟨us, rfl⟩ := List.head?_eq_some_iff.mp hu
  obtain ⟨t, ts, ht, -, htokens⟩ := List.forall₂_cons_right_iff.mp halike
  rw [← ht.1]
  exact kind_ne_of_read h (by rw [htokens]; rfl)

/-- What can be read of two streams can be read of one that begins like the first and goes on like
the second, but for positions. -/
theorem TokenStream.read_joined {first second whole : TokenStream} {us : List Token}
    {as bs : List Declaration} {pos₂ pos : Position}
    (hfirst : first.read.result = .ok as) (hsecond : second.read.result = .ok bs)
    (hkinds : ∀ t ∈ first.tokens, t.kind ≠ .eof)
    (htokens : whole.tokens = first.tokens ++ us)
    (halike : List.Forall₂ (Token.Alike fun _ _ => True) second.tokens us)
    (hstop₂ : second.stop = .finished pos₂) (hstop : whole.stop = .finished pos) :
    whole.read.result = .ok (as ++ bs) := by
  have hparted := parted_of_read hsecond halike
  obtain ⟨s₁, dss, _, htokens₁, -, rfl, hdss⟩ := exists_manyUntil_of_read hfirst
  obtain ⟨s₂, ess, _, htokens₂, hstop_s₂, rfl, hess⟩ := exists_manyUntil_of_read hsecond
  obtain ⟨t, htokens_t, hstop_t, hread⟩ := exists_read_of_finished hstop
  have hjoins : Parser.Joins (fun _ _ => True) s₁ t us := by
    refine ⟨⟨first.tokens, htokens_t.trans htokens, ?_⟩, ⟨pos, hstop_t.trans hstop⟩, hparted⟩
    rw [htokens₁]
    exact List.forall₂_same.mpr fun _ _ => ⟨rfl, trivial⟩
  have hleft₁ : s₁.left = first.tokens.length := by rw [s₁.left_eq, htokens₁]
  have hleft₂ : s₂.left = second.tokens.length := by rw [s₂.left_eq, htokens₂]
  have hleft_t : t.left = whole.tokens.length := by rw [t.left_eq, htokens_t]
  obtain ⟨t', htokens_t', ⟨pos', hstop_t'⟩, hrest⟩ := hjoins.manyUntil_declaration
    (fun pos => ⟨pos, trivial⟩) Parser.not_startsStatement_eof false (Nat.le_of_eq hleft₁)
    (Nat.le_of_eq hleft_t) (fun x hx => hkinds x (htokens₁ ▸ hx)) hdss
  have hlength : second.tokens.length ≤ whole.tokens.length := by
    rw [halike.length_eq, htokens, List.length_append]
    exact Nat.le_add_left _ _
  obtain ⟨t'', hess'⟩ := Parser.manyUntil_declaration_of_alike (fun pos => ⟨pos, trivial⟩)
    (Nat.le_of_eq hleft₂) (hleft₂ ▸ hlength)
    ⟨us, by rw [htokens_t', List.append_nil], htokens₂ ▸ halike⟩
    (by rw [hstop_s₂, hstop₂, hstop_t']; trivial) hess
  rw [← List.flatten_append]
  exact hread (dss ++ ess) t'' (hrest ess t'' hess')

/-- A source that can be read is read to its end. -/
theorem Source.finished_of_parse {bytes : List UInt8} {ds : List Declaration}
    (h : (ofBytes bytes).parse = .ok ds) : ∃ pos, (ofBytes bytes).tokens.stop = .finished pos := by
  cases hstop : (ofBytes bytes).tokens.stop with
  | finished pos => exact ⟨pos, rfl⟩
  | failed error =>
    obtain ⟨e, he⟩ := TokenStream.exists_error_of_failed hstop fun t ht => Source.kind_ne_eof ht
    rw [show (ofBytes bytes).parse = .error e from he] at h
    cases h

/-- Reading two sources one after the other gives what each of them gives. -/
theorem Source.parse_append_newline {bytes more : List UInt8} {as bs : List Declaration}
    (h : (ofBytes bytes).parse = .ok as) (h' : (ofBytes more).parse = .ok bs) :
    (ofBytes (bytes ++ '\n'.toUInt8 :: more)).parse = .ok (as ++ bs) := by
  obtain ⟨pos, hstop⟩ := finished_of_parse h
  obtain ⟨pos', hstop'⟩ := finished_of_parse h'
  have hwhole : (ofBytes (bytes ++ '\n'.toUInt8 :: more)).tokens = _ :=
    Cursor.tokens_newline hstop more
  obtain ⟨halike, hends⟩ :=
    Cursor.tokens_alike .eof (Cursor.start more) ⟨pos.after '\n'.toUInt8, more⟩ rfl
  obtain ⟨pos'', hstop''⟩ := hends pos' hstop'
  exact TokenStream.read_joined h h' (fun t ht => Source.kind_ne_eof ht)
    (congrArg TokenStream.tokens hwhole) halike hstop'
    ((congrArg TokenStream.stop hwhole).trans hstop'')

/-- A source that ends in a comment, and whose last declaration could have a semicolon after it. -/
def openEnded : List UInt8 :=
  Utf8.encode "import \"a.idl\"; enum E \x7b A, B = 0x2 | A, \x7d // no line feed".toList

/-- A source whose first declaration has attributes. -/
def attributed : List UInt8 :=
  Utf8.encode
    "[version(1.0)] library L \x7b const long* C = \"c\"; \x7d midl_pragma w (f: 1)".toList

/-- Declarations that end in a comment, followed by some that begin with attributes. -/
theorem Source.parse_append_newline_attributed :
    ∃ as bs, (ofBytes openEnded).parse = .ok as ∧ (ofBytes attributed).parse = .ok bs ∧
      (Declaration.preorder as).map Declaration.kindWord = ["import", "enum"] ∧
      (Declaration.preorder bs).map Declaration.kindWord = ["library", "const", "midl_pragma"] ∧
      (ofBytes (openEnded ++ '\n'.toUInt8 :: attributed)).parse = .ok (as ++ bs) := by
  have hwords : (ofBytes openEnded).parse.toOption.map
      (fun ds => (Declaration.preorder ds).map Declaration.kindWord) = some ["import", "enum"] := by
    decide +kernel
  have hwords' : (ofBytes attributed).parse.toOption.map
      (fun ds => (Declaration.preorder ds).map Declaration.kindWord) =
      some ["library", "const", "midl_pragma"] := by
    decide +kernel
  obtain ⟨as, h, has⟩ := Declaration.exists_of_kindWords hwords
  obtain ⟨bs, h', hbs⟩ := Declaration.exists_of_kindWords hwords'
  exact ⟨as, bs, h, h', has, hbs, parse_append_newline h h'⟩

end Midl
