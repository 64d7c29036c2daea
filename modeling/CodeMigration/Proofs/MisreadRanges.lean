import CodeMigration.Proofs.ListedIssues

/-! # Ranges of lines in an answer

The lines of an issue are read as one number: all digits in a row, so that `3-5` is line 35. A range of lines never
becomes the lines of a finding, and a change for such a finding leaves the lines of the range where they are. -/

namespace CodeMigration.Assistant

open Text (stripBoth)

def rangeText (a b : Nat) : String := toString a ++ "-" ++ toString b

/-- The number that a range is read as, unless it has too many digits. -/
def rangeNumber (a b : Nat) : Nat :=
  if (toString a).length + (toString b).length ≤ Text.maxReadDigits then a * 10 ^ (toString b).length + b else 1

theorem toList_rangeText (a b : Nat) : (rangeText a b).toList = Nat.toDigits 10 a ++ '-' :: Nat.toDigits 10 b := by
  have hdash : "-".toList = ['-'] := rfl
  simp [rangeText, hdash]

theorem lineNumber_rangeText (a b : Nat) : lineNumber (behindColon (rangeText a b)) = rangeNumber a b := by
  have hfilter : (behindColon (rangeText a b)).filter isDigit = Nat.toDigits 10 a ++ Nat.toDigits 10 b := by
    rw [behindColon, toList_rangeText, if_neg (by simp), List.filter_cons_of_neg (by decide), List.filter_append,
      List.filter_cons_of_neg (by decide), filter_isDigit (Json.digits_toDigits a), filter_isDigit (Json.digits_toDigits b)]
  have hdigits : Json.Digits (Nat.toDigits 10 a ++ Nat.toDigits 10 b) :=
    List.forall_mem_append.2 ⟨Json.digits_toDigits a, Json.digits_toDigits b⟩
  have hlength : ∀ n : Nat, (toString n).length = (Nat.toDigits 10 n).length := by simp [← String.length_toList]
  rw [lineNumber, hfilter, Text.readInt_digits (by simp) hdigits, rangeNumber, hlength, hlength, List.length_append]
  by_cases h : (Nat.toDigits 10 a).length + (Nat.toDigits 10 b).length ≤ Text.maxReadDigits
  · simp only [if_pos h, Json.natOf_append, Json.natOf_toDigits, Int.toNat_natCast]
  · simp only [if_neg h]

theorem stripBoth_rangeText (a b : Nat) : stripBoth (rangeText a b).toList = (rangeText a b).toList := by
  obtain ⟨c, rest, d, hhead, hc⟩ := (Text.spelled_toDigits a).exists_head
  obtain ⟨front, c', d', hlast, hc'⟩ := (Text.spelled_toDigits b).exists_last
  have hstrip := @Text.stripBoth_append [] (rangeText a b).toList [] (by simp) (by simp)
    ⟨c, _, by rw [toList_rangeText, hhead, List.cons_append], Text.not_isBlank_of_digit hc⟩
    ⟨Nat.toDigits 10 a ++ '-' :: front, c', by simp [toList_rangeText, hlast], Text.not_isBlank_of_digit hc'⟩
  simpa using hstrip

theorem ofLine_rangeText (a b : Nat) :
    Bullet.ofLine (bullet "Line number(s)" (rangeText a b)) = .line (rangeNumber a b) := by
  simp only [Bullet.ofLine, stripBoth_bullet _ (stripBoth_rangeText a b)]
  rw [afterColon?_bulletHead (by decide), Option.map_some, lineNumber_rangeText]
  rfl

theorem lt_rangeNumber {a b : Nat} (ha : 1 ≤ a) (h : (toString a).length + (toString b).length ≤ Text.maxReadDigits) :
    b < rangeNumber a b := by
  have hpos : 1 ≤ a * 10 ^ (toString b).length := Nat.mul_pos ha (Nat.pow_pos (by decide))
  rw [rangeNumber, if_pos h]
  omega

theorem rangeNumber_ne {a b : Nat} (ha : 1 ≤ a) (hab : a ≤ b) : ¬(rangeNumber a b = a ∧ rangeNumber a b = b) := by
  rintro ⟨hfirst, hlast⟩
  by_cases h : (toString a).length + (toString b).length ≤ Text.maxReadDigits
  · exact absurd hlast (lt_rangeNumber ha h).ne'
  · rw [rangeNumber, if_neg h] at hfirst hlast
    subst hfirst hlast
    exact h (by decide)

def Bullet.isInside : Bullet → Bool
  | .kind _ | .broken => false
  | _ => true

/-- A draft after a bullet of its issue. -/
def Draft.noted (d : Draft) : Bullet → Draft
  | .line number => { d with line := number }
  | .code text => { d with code := text }
  | .severity text => { d with severity := text }
  | .suggestion text => { d with suggestion := text }
  | _ => d

section
variable {file : String} {lines : List String}

theorem issuesFrom_inside {inside : List Bullet} (h : ∀ b ∈ inside, b.isInside = true) (d : Draft) (count : Nat)
    (rest : List Bullet) :
    issuesFrom file lines d count (inside ++ rest) = issuesFrom file lines (inside.foldl Draft.noted d) count rest := by
  induction inside generalizing d with
  | nil => rfl
  | cons b inside ih =>
    obtain ⟨hb, hinside⟩ := List.forall_mem_cons.1 h
    cases b with
    | kind | broken => cases hb
    | _ => exact ih hinside _

theorem kind_foldl_noted (inside : List Bullet) (d : Draft) : (inside.foldl Draft.noted d).kind = d.kind := by
  induction inside generalizing d with
  | nil => rfl
  | cons b inside ih => rw [List.foldl_cons, ih]; cases b <;> rfl

theorem line_foldl_noted {inside : List Bullet} (h : ∀ n, .line n ∉ inside) (d : Draft) :
    (inside.foldl Draft.noted d).line = d.line := by
  induction inside generalizing d with
  | nil => rfl
  | cons b inside ih =>
    rw [List.foldl_cons, ih fun n hn => h n (List.mem_cons_of_mem b hn)]
    cases b with
    | line n => exact absurd List.mem_cons_self (h n)
    | _ => rfl

theorem exists_items_issuesFrom {before inside next : List Bullet} {kind : String} (hbefore : ∀ b ∈ before, b ≠ .broken)
    (hinside : ∀ b ∈ inside, b.isInside = true) (hnext : ∀ b ∈ next.head?, ∃ text, b = .kind text) (d : Draft)
    (count : Nat) : ∃ earlier later,
    (issuesFrom file lines d count (before ++ .kind kind :: (inside ++ next))).items =
      earlier ++ (inside.foldl Draft.noted { kind := kind }).finding file lines (count + earlier.length) :: later := by
  induction before generalizing d count with
  | nil =>
    have hissue (count : Nat) : ∃ later, (issuesFrom file lines { kind := kind } count (inside ++ next)).items =
        (inside.foldl Draft.noted { kind := kind }).finding file lines count :: later := by
      have hne : inside.foldl Draft.noted { kind := kind } ≠ {} := by
        intro h
        have hkind := kind_foldl_noted inside { kind := kind }
        rw [h] at hkind
        cases hkind
      rw [issuesFrom_inside hinside]
      cases next with
      | nil => exact ⟨[], by rw [issuesFrom, if_neg hne]⟩
      | cons b next =>
        obtain ⟨text, rfl⟩ := hnext b rfl
        exact ⟨_, by rw [issuesFrom, if_neg hne, Partial.cons]⟩
    rw [List.nil_append, issuesFrom]
    split
    · obtain ⟨later, h⟩ := hissue count
      exact ⟨[], later, h⟩
    · obtain ⟨later, h⟩ := hissue (count + 1)
      exact ⟨[d.finding file lines count], later, congrArg _ h⟩
  | cons b before ih =>
    obtain ⟨hb, hrest⟩ := List.forall_mem_cons.1 hbefore
    cases b with
    | broken => exact absurd rfl hb
    | kind text =>
      rw [List.cons_append, issuesFrom]
      split
      · exact ih hrest _ _
      · obtain ⟨earlier, later, h⟩ := ih hrest { kind := text } (count + 1)
        refine ⟨d.finding file lines count :: earlier, later, ?_⟩
        rw [Partial.cons, h, List.length_cons, Nat.add_assoc, Nat.add_comm 1]
        rfl
    | _ => exact ih hrest _ _

end

/-- A change with the code of an answer leaves all lines before that of its finding. -/
theorem take_prefix_applyTo {kind : MigrationKind} {style content : String} {f : Finding} {o : Outside} {w w' : World}
    {c : Change} (h : (Coder.fix true kind style f content).runIn o w = (.ok c, w')) {n : Nat}
    (hf : (n : Int) < f.place.startLine) (lines : List String) : lines.take n <+: c.applyTo lines := by
  obtain ⟨answer, w₁, -, hchange⟩ := Act.runIn_bind_eq_ok.1 h
  cases hchange
  have hprefix : lines.take n <+: lines.take (f.place.startLine - 1).toNat :=
    List.take_prefix_take_left (by omega)
  rw [Change.applyTo, Text.upTo_eq_take (by show 0 ≤ f.place.startLine - 1; omega), List.append_assoc]
  exact hprefix.trans (List.prefix_append _ _)

/-- An issue with a range of lines becomes a finding with one line, which is not that range, whatever else the answer
lists. As long as the number is not too long the line lies behind the range, and a change for the finding leaves all
lines up to the end of the range. -/
theorem range_read_as_one_line {a b : Nat} (ha : 1 ≤ a) (hab : a ≤ b) {answer kind first : String}
    {before inside inside' next : List String}
    (hlines : Text.lines answer =
      before ++ first :: (inside ++ bullet "Line number(s)" (rangeText a b) :: inside' ++ next))
    (hsilent : Text.contains answer noIssues = false) (hbefore : ∀ l ∈ before, Bullet.ofLine l ≠ .broken)
    (hfirst : Bullet.ofLine first = .kind kind) (hinside : ∀ l ∈ inside ++ inside', (Bullet.ofLine l).isInside = true)
    (hlast : ∀ n, ∀ l ∈ inside', Bullet.ofLine l ≠ .line n)
    (hnext : ∀ l ∈ next.head?, ∃ text, Bullet.ofLine l = .kind text) (file content : String) :
    ∃ earlier f later, (issues answer file content).items = earlier ++ f :: later ∧
      f.id = "llm_" ++ toString earlier.length ∧ f.kind = kind ∧
      f.place = ⟨file, rangeNumber a b, rangeNumber a b, 0, 0⟩ ∧ (f.place.startLine, f.place.endLine) ≠ (↑a, ↑b) ∧
      ((toString a).length + (toString b).length ≤ Text.maxReadDigits →
        ∀ kind style content o w w' c, (Coder.fix true kind style f content).runIn o w = (.ok c, w') →
          ∀ lines : List String, lines.take b <+: c.applyTo lines) := by
  have hbullets : (Text.lines answer).map Bullet.ofLine = before.map Bullet.ofLine ++ .kind kind ::
      ((inside.map Bullet.ofLine ++ .line (rangeNumber a b) :: inside'.map Bullet.ofLine) ++ next.map Bullet.ofLine) := by
    simp [hlines, hfirst, ofLine_rangeText]
  have hall : ∀ m ∈ inside.map Bullet.ofLine ++ .line (rangeNumber a b) :: inside'.map Bullet.ofLine,
      m.isInside = true := by
    simp only [List.mem_append, List.mem_cons, List.mem_map] at hinside ⊢
    rintro m (⟨l, hl, rfl⟩ | rfl | ⟨l, hl, rfl⟩)
    · exact hinside l (.inl hl)
    · rfl
    · exact hinside l (.inr hl)
  have hstart : ∀ m ∈ (next.map Bullet.ofLine).head?, ∃ text, m = .kind text := by
    simpa [List.head?_map] using hnext
  obtain ⟨earlier, later, hitems⟩ := @exists_items_issuesFrom file (Text.lines content) _ _ _ kind
    (List.forall_mem_map.2 hbefore) hall hstart {} 0
  generalize hd : (inside.map Bullet.ofLine ++ .line (rangeNumber a b) :: inside'.map Bullet.ofLine).foldl Draft.noted
    { kind := kind } = d at hitems
  have hkind : d.kind = some kind := hd ▸ kind_foldl_noted _ _
  have hline : d.line = some (rangeNumber a b) := by
    rw [← hd, List.foldl_append, List.foldl_cons, line_foldl_noted (by simpa using hlast)]
    rfl
  have hplace : (d.finding file (Text.lines content) (0 + earlier.length)).place =
      ⟨file, rangeNumber a b, rangeNumber a b, 0, 0⟩ := by
    rw [Draft.finding, hline]
    rfl
  refine ⟨earlier, _, later, ?_, ?_, ?_, hplace, ?_, fun hlength kind style content o w w' c h => ?_⟩
  · rw [issues, if_neg (by simp [hsilent]), hbullets, hitems]
  · rw [Draft.finding, Nat.zero_add]
  · rw [Draft.finding, hkind]
    rfl
  · rw [hplace, ne_eq, Prod.mk.injEq, Int.natCast_inj, Int.natCast_inj]
    exact rangeNumber_ne ha hab
  · refine take_prefix_applyTo h ?_
    rw [hplace]
    exact Int.ofNat_lt.2 (lt_rangeNumber ha hlength)

/-- A range behind another issue. -/
def rangeAnswer : String := "- Pattern type: a\n- Pattern type: x\n- Severity: low\n- Line number(s): 3-5"

theorem range_read_as_one_line_rangeAnswer : ∃ earlier f later,
    (issues rangeAnswer "m.py" "").items = earlier ++ f :: later ∧ f.kind = "x" ∧ f.place = ⟨"m.py", 35, 35, 0, 0⟩ := by
  have hsplit : Text.lines rangeAnswer = ["- Pattern type: a"] ++ "- Pattern type: x" ::
      (["- Severity: low"] ++ bullet "Line number(s)" (rangeText 3 5) :: [] ++ []) := by decide +kernel
  have hbefore : ∀ l ∈ ["- Pattern type: a"], Bullet.ofLine l ≠ .broken := List.forall_mem_singleton.2 (by decide)
  have hinside : ∀ l ∈ ["- Severity: low"] ++ [], (Bullet.ofLine l).isInside = true :=
    List.forall_mem_singleton.2 (by decide)
  have hfirst : Bullet.ofLine "- Pattern type: x" = .kind "x" := by decide
  obtain ⟨earlier, f, later, hitems, -, hkind, hplace, -⟩ := range_read_as_one_line (by decide) (by decide) hsplit
    (by decide +kernel) hbefore hfirst hinside (by simp) (by simp) "m.py" ""
  exact ⟨earlier, f, later, hitems, hkind, hplace⟩

theorem place_of_range : ((issues "- Pattern type: x\n- Line number(s): 3-5\n- Code snippet: c" "m.py"
    "a\nb\nc\nd\ne\nf\n").items.map (·.place)) = [⟨"m.py", 35, 35, 0, 0⟩] := by
  decide +kernel

end CodeMigration.Assistant
