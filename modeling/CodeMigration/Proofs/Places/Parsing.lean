import CodeMigration.Proofs.Places.Tokens

/-! # Parses that keep to the lines of a text

A parse moves forward over tokens, and what it builds has its place among the lines of the text. Both go together:
a node ends at the last token passed over that is no layout, so it ends behind its start only if there was one. -/

namespace CodeMigration.Source.Grammar

variable {n : Nat}

def Args.Within (n : Nat) (a : Args) : Prop :=
  (∀ e ∈ a.positional, e.Within n) ∧ ∀ k ∈ a.keywords, k.Within n

/-- What a construct gives is within so many lines, and imports in it have names. -/
def Phrase.Within (n : Nat) : (s : Phrase) → s.Value → Prop
  | .expr, (e : Expr) => e.Within n
  | .exprs, (es : List Expr) => ∀ e ∈ es, e.Within n
  | .args, (a : Args) => a.Within n
  | .clauses, (cs : List Clause) => ∀ c ∈ cs, c.Within n
  | .params, (ps : Params) => ps.Within n
  | .stmt, (s : Stmt) => s.Sound n
  | .stmts, (ss : List Stmt) => ∀ s ∈ ss, s.Sound n
  | .pattern, (p : Pattern) => p.Within n
  | .patterns, (ps : List Pattern) => ∀ p ∈ ps, p.Within n

/-- From one place among the tokens to a later one; `past` says that a token that is no layout was passed over. -/
structure Cursor.Reaches (c : Cursor) (past : Bool) (c' : Cursor) : Prop where
  rest : c'.rest <:+ c.rest
  solid : c'.solid ∈ c.rest ∨ past = false ∧ c'.solid = c.solid

namespace Cursor.Reaches

variable {c c' c'' : Cursor} {past : Bool}

theorem refl (c : Cursor) : c.Reaches false c := ⟨List.suffix_refl _, .inr ⟨rfl, rfl⟩⟩

theorem weak (h : c.Reaches past c') : c.Reaches false c' := ⟨h.rest, h.solid.imp_right fun h => ⟨rfl, h.2⟩⟩

theorem trans (h : c.Reaches past c') (h' : c'.Reaches false c'') : c.Reaches past c'' := by
  refine ⟨h'.rest.trans h.rest, ?_⟩
  rcases h'.solid with hin | ⟨-, heq⟩
  · exact .inl (h.rest.subset hin)
  · rw [heq]
    exact h.solid

theorem trans_past (h : c.Reaches false c') (h' : c'.Reaches true c'') : c.Reaches past c'' := by
  refine ⟨h'.rest.trans h.rest, .inl (h.rest.subset ?_)⟩
  rcases h'.solid with hin | ⟨hpast, -⟩
  · exact hin
  · cases hpast

end Cursor.Reaches

/-- What is remembered is within so many lines, and lies behind the token where it was found. -/
def Remembers (n : Nat) (toks : List Token) (memo : Array (List Entry)) : Prop :=
  ∀ i, ∀ entry ∈ memo[i]?.getD [], ∀ v c, entry.value = some (v, c) →
    entry.phrase.Within n v ∧ c.rest <:+ toks.drop i ∧ c.solid ∈ toks.drop i

/-- Where a parse without explanations starts. -/
structure Ready (n : Nat) (toks : List Token) (e : Env) (c : Cursor) (w : Work) : Prop where
  orderly : Orderly n toks
  quiet : e.explain = false
  here : c.rest <:+ toks
  memo : Remembers n toks w.memo

/-- What a parse comes to, seen from a place where it or one before it started. -/
def Outcome.Fits {α : Type} (n : Nat) (toks : List Token) (c₀ : Cursor) (past : Bool) (Q : α → Prop) :
    Outcome α → Prop
  | .hit a c w => c₀.Reaches past c ∧ Q a ∧ Remembers n toks w.memo
  | .miss w => Remembers n toks w.memo
  | .fault .. => True

/-- The rest of a parse that started at `c₀`: it moves forward and gives what has a property. A token that is no
layout has been passed over since if `past` says so, and is by the end if `past'` does. -/
def ReadsOn {α : Type} (n : Nat) (c₀ : Cursor) (past past' : Bool) (Q : α → Prop) (p : Parse α) : Prop :=
  ∀ toks e c w, Ready n toks e c w → c₀.rest <:+ toks → c₀.Reaches past c → (p e c w).Fits n toks c₀ past' Q

/-- A whole parse. -/
def Reads {α : Type} (n : Nat) (past : Bool) (Q : α → Prop) (p : Parse α) : Prop :=
  ∀ c₀, ReadsOn n c₀ false past Q p

/-- A token that is passed over. -/
abbrev ReadsToken (n : Nat) (p : Parse Token) : Prop := Reads n true (Token.Placed n) p

abbrev ReadsAny {α : Type} (n : Nat) (past : Bool) (p : Parse α) : Prop := Reads n past (fun _ => True) p

abbrev ReadsExpr (n : Nat) (p : Parse Expr) : Prop := Reads n true (Expr.Within n) p

abbrev ReadsPattern (n : Nat) (p : Parse Pattern) : Prop := Reads n true (Pattern.Within n) p

abbrev ReadsStmt (n : Nat) (p : Parse Stmt) : Prop := Reads n true (Stmt.Sound n) p

/-- Parts of one sort one after the other. -/
abbrev ReadsList {α : Type} (n : Nat) (Q : α → Prop) (p : Parse (List α)) : Prop :=
  Reads n true (fun as => ∀ a ∈ as, Q a) p

section
variable {α β : Type} {toks : List Token} {e : Env} {c c₀ : Cursor} {w : Work} {past past' before : Bool} {P : β → Prop}
  {Q : α → Prop} {p : Parse α} {q : Parse β} {f : β → Parse α} {ps : List (Parse α)} {a : α} {w' : Work} {rule : Nat}
  {s : Phrase}

theorem Ready.after (h : Ready n toks e c w) {c' : Cursor} (hc' : c.Reaches past c') (hw' : Remembers n toks w'.memo) :
    Ready n toks e c' w' :=
  ⟨h.orderly, h.quiet, hc'.rest.trans h.here, hw'⟩

theorem Ready.again (h : Ready n toks e c w) (hw' : Remembers n toks w'.memo) : Ready n toks e c w' :=
  ⟨h.orderly, h.quiet, h.here, hw'⟩

theorem Outcome.Fits.seen {r : Outcome α} (h : r.Fits n toks c past' Q) (hc : c₀.Reaches past c) :
    r.Fits n toks c₀ past Q := by
  cases r with
  | hit a c' w' => exact ⟨hc.trans h.1.weak, h.2⟩
  | miss w' => exact h
  | fault x l w' => trivial

theorem Outcome.Fits.seen_past {r : Outcome α} (h : r.Fits n toks c true Q) (hc : c₀.Reaches past c) :
    r.Fits n toks c₀ past' Q := by
  cases r with
  | hit a c' w' => exact ⟨hc.weak.trans_past h.1, h.2⟩
  | miss w' => exact h
  | fault x l w' => trivial

theorem Reads.apply (h : Reads n past Q p) (hr : Ready n toks e c w) : (p e c w).Fits n toks c past Q :=
  h c toks e c w hr hr.here (.refl c)

theorem Reads.of_apply (h : ∀ toks e c w, Ready n toks e c w → (p e c w).Fits n toks c past Q) : Reads n past Q p := by
  intro c₀ toks e c w hr _ hc
  cases past with
  | true => exact (h toks e c w hr).seen_past hc
  | false => exact (h toks e c w hr).seen hc

namespace ReadsOn

theorem of (h : Reads n before Q p) : ReadsOn n c₀ past past Q p :=
  fun _ _ _ _ hr _ hc => (h.apply hr).seen hc

theorem ofPast (h : Reads n true Q p) : ReadsOn n c₀ past past' Q p :=
  fun _ _ _ _ hr _ hc => (h.apply hr).seen_past hc

theorem pure (h : Q a) : ReadsOn n c₀ past past Q (pure a) :=
  fun _ _ _ _ hr _ hc => ⟨hc, h, hr.memo⟩

theorem expr {e : Expr} (h : e.PartsWithin n) : ReadsOn n c₀ past past (Expr.Within n) (Pure.pure e) :=
  .pure (Expr.within_iff.2 h)

theorem pattern {q : Pattern} (h : q.PartsWithin n) : ReadsOn n c₀ past past (Pattern.Within n) (Pure.pure q) :=
  .pure (Pattern.within_iff.2 h)

theorem node {f : Span → Expr} (h : ∀ s, s.Within n → (f s).PartsWithin n) :
    ReadsOn n c₀ past past (fun f => ∀ s, Span.Within n s → Expr.Within n (f s)) (Pure.pure f) :=
  .pure fun s hs => Expr.within_iff.2 (h s hs)

theorem stmt {f : Span → Stmt} (h : ∀ s, s.Within n → (f s).PartsWithin n)
    (hcomplete : ∀ s, (f s).Complete := by exact fun _ => trivial) :
    ReadsOn n c₀ past past (fun f => ∀ s, Span.Within n s → Stmt.Sound n (f s)) (Pure.pure f) :=
  .pure fun s hs => ⟨Stmt.within_iff.2 (h s hs), hcomplete s⟩

theorem bind (hq : ReadsOn n c₀ past before P q)
    (hf : ∀ b, P b → ReadsOn n c₀ before past' Q (f b)) : ReadsOn n c₀ past past' Q (q >>= f) := by
  intro toks e c w hr h₀ hc
  have hfits := hq toks e c w hr h₀ hc
  simp only [Bind.bind, Parse.bind]
  generalize q e c w = r at hfits ⊢
  cases r with
  | hit b c' w' =>
    obtain ⟨hc', hb, hw'⟩ := hfits
    exact hf b hb toks e c' w' ⟨hr.orderly, hr.quiet, hc'.rest.trans h₀, hw'⟩ h₀ hc'
  | miss w' => exact hfits
  | fault x l w' => trivial

theorem next (hq : Reads n before P q)
    (hf : ∀ b, P b → ReadsOn n c₀ past past' Q (f b)) : ReadsOn n c₀ past past' Q (q >>= f) := bind (.of hq) hf

theorem pass (hq : Reads n true P q)
    (hf : ∀ b, P b → ReadsOn n c₀ true past' Q (f b)) : ReadsOn n c₀ past past' Q (q >>= f) := bind (.ofPast hq) hf

theorem skip (hq : Reads n before P q) (hp : ReadsOn n c₀ past past' Q p) :
    ReadsOn n c₀ past past' Q (q >>= fun _ => p) := next hq fun _ _ => hp

theorem cross (hq : Reads n true P q) (hp : ReadsOn n c₀ true past' Q p) :
    ReadsOn n c₀ past past' Q (q >>= fun _ => p) := pass hq fun _ _ => hp

theorem pureNext {b : β} (h : ReadsOn n c₀ past past' Q (f b)) : ReadsOn n c₀ past past' Q (Pure.pure b >>= f) := h

theorem spanFrom {t : Token} {f : Span → Parse α} (ht : c₀.rest.head? = some t)
    (hf : ∀ s, s.Within n → ReadsOn n c₀ true past' Q (f s)) :
    ReadsOn n c₀ true past' Q (Parse.spanFrom t >>= f) := by
  intro toks e c w hr h₀ hc
  refine hf _ ?_ toks e c w hr h₀ hc
  obtain ⟨rest, hrest⟩ := List.head?_eq_some_iff.1 ht
  have hsolid : c.solid ∈ c₀.rest := hc.solid.resolve_right fun h => Bool.noConfusion h.1
  have hstart := (hr.orderly.placed t (h₀.subset (hrest ▸ List.mem_cons_self))).within
  have hend := (hr.orderly.placed c.solid (h₀.subset hsolid)).within
  have hsorted := hr.orderly.sorted.sublist h₀.sublist
  have hle : t.span.line ≤ c.solid.span.line := by
    rw [hrest] at hsorted hsolid
    rcases List.mem_cons.1 hsolid with heq | hin
    · exact Nat.le_of_eq (congrArg (·.span.line) heq.symm)
    · exact (List.pairwise_cons.1 hsorted).1 _ hin
  exact ⟨hstart.first, Nat.le_trans hle hend.order, hend.last⟩

theorem or {p q : Parse α} (hp : ReadsOn n c₀ past past' Q p) (hq : ReadsOn n c₀ past past' Q q) :
    ReadsOn n c₀ past past' Q (p <|> q) := by
  intro toks e c w hr h₀ hc
  have hfits := hp toks e c w hr h₀ hc
  show Outcome.Fits n toks c₀ past' Q (Parse.orElse p q e c w)
  unfold Parse.orElse
  generalize p e c w = r at hfits ⊢
  cases r with
  | hit a c' w' => exact hfits
  | miss w' => exact hq toks e c w' (hr.again hfits) h₀ hc
  | fault x l w' => trivial

theorem miss : ReadsOn n c₀ past past' Q Parse.miss := fun _ _ _ _ hr _ _ => hr.memo

theorem missNext : ReadsOn n c₀ past past' Q (Parse.miss >>= f) :=
  fun _ _ _ _ hr _ _ => hr.memo

theorem alt (hp : ReadsOn n c₀ past past' Q p)
    (hps : ReadsOn n c₀ past past' Q (Parse.firstOf ps)) : ReadsOn n c₀ past past' Q (Parse.firstOf (p :: ps)) := by
  cases ps with
  | nil => exact hp
  | cons q qs => exact hp.or hps

theorem firstOf (h : ∀ p ∈ ps, ReadsOn n c₀ past past' Q p) : ReadsOn n c₀ past past' Q (Parse.firstOf ps) := by
  induction ps with
  | nil => exact miss
  | cons p ps ih => exact .alt (List.forall_mem_cons.1 h).1 (ih (List.forall_mem_cons.1 h).2)

theorem orPast {p q : Parse α} (hp : Reads n true Q p) (hq : Reads n true Q q) :
    ReadsOn n c₀ past past' Q (p <|> q) := or (.ofPast hp) (.ofPast hq)

theorem one (hp : Reads n true Q p)
    (hps : ReadsOn n c₀ past past' Q (Parse.firstOf ps)) : ReadsOn n c₀ past past' Q (Parse.firstOf (p :: ps)) :=
  alt (.ofPast hp) hps

theorem ifFits (hq : Reads n before P q)
    (hf : ∀ b, P b → ReadsOn n c₀ past past' Q (f b)) (hp : ReadsOn n c₀ past past' Q p) :
    ReadsOn n c₀ past past' Q (Parse.ifFits q f p) := by
  intro toks e c w hr h₀ hc
  have hfits := hq.apply hr
  unfold Parse.ifFits
  generalize q e c w = r at hfits ⊢
  cases r with
  | hit b c' w' =>
    obtain ⟨hc', hb, hw'⟩ := hfits
    exact hf b hb toks e c' w' (hr.after hc' hw') h₀ (hc.trans hc'.weak)
  | miss w' => exact hp toks e c w' (hr.again hfits) h₀ hc
  | fault x l w' => trivial

theorem ite {b : Prop} [Decidable b] {p q : Parse α} (hp : ReadsOn n c₀ past past' Q p)
    (hq : ReadsOn n c₀ past past' Q q) : ReadsOn n c₀ past past' Q (if b then p else q) := by
  split
  · exact hp
  · exact hq

theorem explaining : ReadsOn n c₀ past past' Q (Parse.explaining p) := by
  intro toks e c w hr _ _
  unfold Parse.explaining
  rw [if_neg (by rw [hr.quiet]; exact Bool.false_ne_true)]
  exact hr.memo

theorem raise {cause : Cause} : ReadsOn n c₀ past past' Q (Parse.raise cause) := fun _ _ _ _ _ _ _ => trivial

theorem raiseAt {line : Nat} {cause : Cause} : ReadsOn n c₀ past past' Q (Parse.raiseAt line cause) :=
  fun _ _ _ _ _ _ _ => trivial

theorem extend {step : α → Parse α} (hstep : ∀ a, Q a → ReadsOn n c₀ true true Q (step a)) (ha : Q a) :
    ReadsOn n c₀ true true Q (Parse.extend step a) := by
  suffices h : ∀ fuel a, Q a → ReadsOn n c₀ true true Q (Parse.extendUpTo step fuel a) from
    fun toks e c w hr h₀ hc => h (e.size + 1) a ha toks e c w hr h₀ hc
  intro fuel
  induction fuel with
  | zero => exact fun a ha => .pure ha
  | succ fuel ih =>
    intro a ha toks e c w hr h₀ hc
    have hfits := hstep a ha toks e c w hr h₀ hc
    unfold Parse.extendUpTo
    generalize step a e c w = r at hfits ⊢
    cases r with
    | hit a' c' w' =>
      obtain ⟨hc', ha', hw'⟩ := hfits
      have hrest : c'.rest <:+ toks := hc'.rest.trans h₀
      exact ih a' ha' toks e c' w' ⟨hr.orderly, hr.quiet, hrest, hw'⟩ h₀ hc'
    | miss w' => exact ⟨hc, ha, hfits⟩
    | fault x l w' => trivial

end ReadsOn

namespace Reads

theorem imp {P : α → Prop} (h : Reads n past P p) (hPQ : ∀ a, P a → Q a) : Reads n past Q p := by
  refine of_apply fun toks e c w hr => ?_
  have hfits := h.apply hr
  generalize p e c w = r at hfits ⊢
  cases r with
  | hit a c' w' => exact ⟨hfits.1, hPQ a hfits.2.1, hfits.2.2⟩
  | miss w' => exact hfits
  | fault x l w' => trivial

theorem or {p q : Parse α} (hp : Reads n true Q p) (hq : Reads n true Q q) : Reads n true Q (p <|> q) :=
  fun _ => .orPast hp hq

theorem behind (hq : Reads n true P q) (h : Reads n before Q p) : Reads n true Q (q >>= fun _ => p) :=
  fun _ => .cross hq <| .of h

theorem opt (h : Reads n past Q p) : Reads n false (fun o => ∀ a ∈ o, Q a) (Parse.opt p) := by
  refine of_apply fun toks e c w hr => ?_
  have hfits := h.apply hr
  unfold Parse.opt
  generalize p e c w = r at hfits ⊢
  cases r with
  | hit a c' w' =>
    obtain ⟨hc', ha, hw'⟩ := hfits
    exact ⟨hc'.weak, by simpa using ha, hw'⟩
  | miss w' => exact ⟨.refl c, by simp, hfits⟩
  | fault x l w' => trivial

theorem ahead (h : Reads n past Q p) : ReadsAny n false (Parse.ahead p) := by
  refine of_apply fun toks e c w hr => ?_
  have hfits := h.apply hr
  unfold Parse.ahead
  generalize p e c w = r at hfits ⊢
  cases r with
  | hit a c' w' => exact ⟨.refl c, trivial, hfits.2.2⟩
  | miss w' => exact hfits
  | fault x l w' => trivial

theorem notAhead (h : Reads n past Q p) : ReadsAny n false (Parse.notAhead p) := by
  refine of_apply fun toks e c w hr => ?_
  have hfits := h.apply hr
  unfold Parse.notAhead
  generalize p e c w = r at hfits ⊢
  cases r with
  | hit a c' w' => exact hfits.2.2
  | miss w' => exact ⟨.refl c, trivial, hfits⟩
  | fault x l w' => trivial

theorem many (h : Reads n past Q p) : Reads n false (fun as => ∀ a ∈ as, Q a) (Parse.many p) := by
  suffices hfuel : ∀ fuel, Reads n false (fun as => ∀ a ∈ as, Q a) (Parse.manyUpTo p fuel) from
    of_apply fun toks e c w hr => (hfuel (e.size + 1)).apply hr
  intro fuel
  induction fuel with
  | zero => exact fun c₀ => .pure (by simp)
  | succ fuel ih =>
    refine of_apply fun toks e c w hr => ?_
    have hfits := h.apply hr
    unfold Parse.manyUpTo
    generalize p e c w = r at hfits ⊢
    cases r with
    | hit a c' w' =>
      obtain ⟨hc', ha, hw'⟩ := hfits
      have hrest := ih.apply (hr.after hc' hw')
      simp only
      generalize Parse.manyUpTo p fuel e c' w' = r at hrest ⊢
      cases r with
      | hit as c'' w'' =>
        obtain ⟨hc'', has, hw''⟩ := hrest
        exact ⟨hc'.weak.trans hc'', List.forall_mem_cons.2 ⟨ha, has⟩, hw''⟩
      | miss w'' => exact hrest
      | fault x l w'' => trivial
    | miss w' => exact ⟨.refl c, by simp, hfits⟩
    | fault x l w' => trivial

theorem many1 (h : Reads n true Q p) : ReadsList n Q (Parse.many1 p) := fun _ =>
  .pass h fun _ ha => .next h.many fun _ has => .pure (List.forall_mem_cons.2 ⟨ha, has⟩)

theorem sepBy1 (h : Reads n true Q p) (hq : Reads n before P q) : ReadsList n Q (Parse.sepBy1 p q) := by
  have hmore : Reads n true Q (do let _ ← q; p) := fun _ => .next hq fun _ _ => .ofPast h
  exact fun _ => .pass h fun _ ha => .next hmore.many fun _ has => .pure (List.forall_mem_cons.2 ⟨ha, has⟩)

theorem sepBy1_ne_nil (h : Reads n true Q p) (hq : Reads n before P q) : Reads n true (· ≠ []) (Parse.sepBy1 p q) := by
  have hmore : Reads n true Q (do let _ ← q; p) := fun _ => .next hq fun _ _ => .ofPast h
  exact fun _ => .pass h fun _ _ => .next hmore.many fun _ _ => .pure (List.cons_ne_nil _ _)

theorem peek {f : Token → Parse α} (hf : ∀ c₀ t, c₀.rest.head? = some t → ReadsOn n c₀ false past Q (f t)) :
    Reads n past Q (Parse.peek >>= f) := by
  refine of_apply fun toks e c w hr => ?_
  simp only [bind, Parse.bind, Parse.peek]
  cases hrest : c.rest with
  | nil =>
    simp only
    cases e.stop with
    | none => exact hr.memo
    | some stop => trivial
  | cons t rest =>
    simp only
    refine hf c t (by rw [hrest, List.head?_cons]) toks e c _ (hr.again ?_) hr.here (.refl c)
    split <;> exact hr.memo

theorem acceptIf {test : Token → Bool} (htest : past = true → ∀ t, test t = true → t.kind.isLayout = false) :
    Reads n past (Token.Placed n) (Parse.acceptIf test) := by
  refine of_apply fun toks e c w hr => ?_
  unfold Parse.acceptIf
  cases hrest : c.rest with
  | nil =>
    simp only
    cases e.stop with
    | none => exact hr.memo
    | some stop => trivial
  | cons t rest =>
    have hin : t ∈ c.rest := hrest ▸ List.mem_cons_self
    have hmemo : Remembers n toks (if w.far.index < t.index then { w with far := t } else w).memo := by
      split <;> exact hr.memo
    simp only
    split
    case isTrue ht =>
      refine ⟨⟨hrest ▸ List.suffix_cons t rest, ?_⟩, hr.orderly.placed t (hr.here.subset hin), hmemo⟩
      cases hlayout : t.kind.isLayout with
      | false => exact .inl hin
      | true =>
        refine .inr ⟨Bool.eq_false_iff.2 fun hpast => ?_, rfl⟩
        rw [htest hpast t ht] at hlayout
        cases hlayout
    case isFalse => exact hmemo

theorem accept {kind : Kind} (hkind : kind.isLayout = false) : ReadsToken n (Parse.accept kind) :=
  acceptIf fun _ _ ht => beq_iff_eq.1 ht ▸ hkind

theorem acceptAny {kind : Kind} : Reads n false (Token.Placed n) (Parse.accept kind) := acceptIf Bool.noConfusion

theorem sym {s : Symbol} : ReadsToken n (Parse.sym s) := accept rfl

theorem word {w : Word} : ReadsToken n (Parse.word w) := accept rfl

theorem softWord {text : String} : ReadsToken n (Parse.softWord text) :=
  acceptIf fun _ _ ht => beq_iff_eq.1 (Bool.and_eq_true_iff.1 ht).1 ▸ rfl

theorem between {opening closing : Symbol} (h : Reads n before Q p) : Reads n true Q (Parse.between opening closing p) :=
  fun _ => .cross sym <| .next h fun _ ha => .skip sym <| .pure ha

theorem commaList (h : Reads n true Q p) : ReadsList n Q (Parse.commaList p) := fun _ =>
  .pass (.sepBy1 h sym) fun _ has => .skip (.opt sym) <| .pure has

theorem force {kind : Kind} {text : String} (hkind : kind.isLayout = false) : ReadsToken n (Parse.force kind text) :=
  peek fun _ _ _ => .ite (.ofPast (accept hkind)) .raiseAt

theorem spanned {p : Parse (Span → α)} (h : Reads n true (fun f => ∀ s, s.Within n → Q (f s)) p) :
    Reads n true Q (Parse.spanned p) := by
  refine peek fun c₀ t ht => .pass h fun f hf => ?_
  exact .spanFrom ht fun s hs => .pure (hf s hs)

end Reads

theorem ReadsOn.spanned {p : Parse (Span → α)} (h : Reads n true (fun f => ∀ s, s.Within n → Q (f s)) p) :
    ReadsOn n c₀ past past' Q (Parse.spanned p) := .ofPast (.spanned h)

theorem drop_index (horderly : Orderly n toks) (h₀ : c₀.rest <:+ toks) {t : Token} (ht : c₀.rest.head? = some t) :
    toks.drop t.index = c₀.rest := by
  obtain ⟨before, rfl⟩ := h₀
  have hindex : t.index = before.length := by
    apply horderly.numbered
    rw [List.getElem?_append_right (Nat.le_refl _), Nat.sub_self, ← List.head?_eq_getElem?, ht]
  rw [hindex, List.drop_left]

theorem exists_of_lookup {entries : List Entry} {v : s.Value} {c : Cursor}
    (h : Parse.lookup rule s entries = some (some (v, c))) : (⟨rule, s, some (v, c)⟩ : Entry) ∈ entries := by
  induction entries with
  | nil => cases h
  | cons entry entries ih =>
    rw [Parse.lookup] at h
    split at h
    case isTrue hrule =>
      split at h
      case isTrue hs =>
        obtain ⟨rule', phrase, value⟩ := entry
        obtain rfl : rule' = rule := beq_iff_eq.1 hrule
        subst hs
        rw [← Option.some.inj h]
        exact List.mem_cons_self
      case isFalse => cases h
    case isFalse => exact List.mem_cons_of_mem _ (ih h)

theorem Remembers.record {memo : Array (List Entry)} (h : Remembers n toks memo) {i : Nat}
    {value : Option (s.Value × Cursor)}
    (hvalue : ∀ v c, value = some (v, c) → s.Within n v ∧ c.rest <:+ toks.drop i ∧ c.solid ∈ toks.drop i) :
    Remembers n toks (memo.modify i (⟨rule, s, value⟩ :: ·)) := by
  intro j entry hentry v c hvc
  rw [Array.getElem?_modify] at hentry
  split at hentry
  case isTrue hij =>
    cases hj : memo[j]? with
    | none =>
      rw [hj] at hentry
      cases hentry
    | some entries =>
      rw [hj] at hentry
      rcases List.mem_cons.1 hentry with rfl | hentry
      · exact hij ▸ hvalue v c hvc
      · exact h j entry (by rw [hj]; exact hentry) v c hvc
  case isFalse => exact h j entry hentry v c hvc

theorem Reads.memoized {p : Parse s.Value} (h : Reads n true (s.Within n) p) :
    Reads n true (s.Within n) (Parse.memoized rule s p) := by
  refine peek fun c₀ t ht toks e c w hr h₀ hc => ?_
  have hdrop := drop_index hr.orderly h₀ ht
  simp only
  split
  case h_1 a c' hlookup =>
    obtain ⟨ha, hrest, hsolid⟩ := hr.memo _ _ (exists_of_lookup hlookup) a c' rfl
    rw [hdrop] at hrest hsolid
    exact ⟨⟨hrest, .inl hsolid⟩, ha, hr.memo⟩
  case h_2 => exact hr.memo
  case h_3 =>
    have hfits := h.apply hr
    generalize p e c w = r at hfits ⊢
    cases r with
    | hit a c' w' =>
      obtain ⟨hc', ha, hw'⟩ := hfits
      have hfar : c₀.Reaches true c' := hc.trans_past hc'
      refine ⟨hfar, ha, hw'.record fun v c'' hvc => ?_⟩
      cases hvc
      rw [hdrop]
      exact ⟨ha, hfar.rest, hfar.solid.resolve_right fun h => Bool.noConfusion h.1⟩
    | miss w' => exact hfits.record fun v c'' hvc => by cases hvc
    | fault x l w' => trivial

theorem Reads.parseTokens {names : StringLiteral.Names} {tokens : Tokens} {fragment : Bool} (h : Reads n past Q p)
    (horderly : Orderly n tokens.list) (ha : parseTokens names fragment tokens p = .ok a) : Q a := by
  have hfresh : Remembers n tokens.list (Array.replicate (tokens.list.length + 1) []) := by
    intro i entry hentry
    rw [Array.getElem?_replicate] at hentry
    split at hentry <;> cases hentry
  have hready : Ready n tokens.list ⟨names, false, fragment, tokens.list.length, tokens.stop⟩
      ⟨tokens.list, default, default⟩
      ⟨tokens.list.headD default, Array.replicate (tokens.list.length + 1) []⟩ :=
    ⟨horderly, rfl, List.suffix_refl _, hfresh⟩
  have hfits := h.apply hready
  unfold Grammar.parseTokens at ha
  simp only at ha
  split at ha
  case h_1 heq =>
    rw [heq] at hfits
    cases ha
    exact hfits.2.1
  case h_2 => cases ha
  case h_3 =>
    split at ha
    · cases ha
    all_goals split at ha <;> cases ha

end

end CodeMigration.Source.Grammar
