import CodeMigration.Proofs.Deeds
import CodeMigration.Proofs.Json.Bytes
import CodeMigration.Proofs.QueryText

/-! # Reading what was loaded last

A client asks a library through a server. Whatever was loaded before, it gets what was loaded last for its key, or the
default of that key. The key crosses an address and is read back from it, the value crosses a text in JSON. -/

namespace CodeMigration.Docs

open Json (Value)

/-- Something that is put into a library. -/
inductive Load where
  | style (language content : String)
  | guide (source target : String) (g : Value)
  | examples (pattern : String) (samples : Value)

def Load.into (lib : Library) (load : Load) : Library :=
  match load with
  | .style language content => lib.loadStyle language content
  | .guide source target g => lib.loadGuide source target g
  | .examples pattern samples => lib.loadExamples pattern samples

def Load.style? (language : String) : Load → Option String
  | .style other content => if other = language then some content else none
  | _ => none

def Load.examples? (pattern : String) : Load → Option Value
  | .examples other samples => if other = pattern then some samples else none
  | _ => none

def lastStyle? (language : String) (loads : List Load) : Option String := loads.reverse.findSome? (·.style? language)

def lastExamples? (pattern : String) (loads : List Load) : Option Value := loads.reverse.findSome? (·.examples? pattern)

variable {α : Type} {key path target : String} {body : Value} {c : Client} {o : Outside} {w : World} {params : Params}

theorem lookup_set (key other : String) (item : α) (entries : Entries α) :
    (entries.set key item).lookup other = if key = other then some item else entries.lookup other := by
  rw [Entries.set, List.lookup_cons]
  by_cases h : key = other
  · simp [h]
  · rw [beq_eq_false_iff_ne.2 (Ne.symm h), if_neg h]

/-- Where each load either sets the item of a key or leaves it, the last one that sets it counts. -/
theorem lookup_foldl (field : Library → Entries α) (pick : Load → Option α) (hstart : (field {}).lookup key = none)
    (hstep : ∀ lib load, (field (load.into lib)).lookup key = (pick load).or ((field lib).lookup key))
    (loads : List Load) :
    (field (loads.foldl (fun lib load => load.into lib) {})).lookup key = loads.reverse.findSome? pick := by
  induction loads using List.reverseRecOn with
  | nil => exact hstart
  | append_singleton loads load ih =>
    rw [List.foldl_append, List.reverse_append, List.reverse_singleton, List.singleton_append, List.findSome?_cons,
      List.foldl_cons, List.foldl_nil, hstep, ih]
    cases pick load <;> rfl

def loaded (loads : List Load) : Library := loads.foldl (fun lib load => load.into lib) {}

theorem style_loaded (loads : List Load) (language : String) :
    (loaded loads).style language = (lastStyle? language loads).getD defaultStyle := by
  have hlast : (loaded loads).styles.lookup language = lastStyle? language loads := by
    refine lookup_foldl Library.styles (·.style? language) rfl (fun lib load => ?_) loads
    cases load with
    | style other content =>
      rw [Load.into, Library.loadStyle, lookup_set, Load.style?]
      split <;> rfl
    | guide source target g | examples pattern samples => rfl
  rw [Library.style, hlast]

theorem examplesOf_loaded (loads : List Load) (pattern : String) :
    (loaded loads).examplesOf pattern =
      (lastExamples? pattern loads).getD ((defaultExamples.lookup pattern).getD (.array [])) := by
  have hlast : (loaded loads).examples.lookup pattern = lastExamples? pattern loads := by
    refine lookup_foldl Library.examples (·.examples? pattern) rfl (fun lib load => ?_) loads
    cases load with
    | style language content | guide source target g => rfl
    | examples other samples =>
      rw [Load.into, Library.loadExamples, lookup_set, Load.examples?]
      split <;> rfl
  rw [Library.examplesOf, hlast]

theorem not_control_of_safe {c : Char} (h : IsSafe c ∨ c = '/') : ¬(c.toNat < 32 ∨ c.toNat = 127) := by
  rcases h with (h | rfl) | rfl
  · have hbounds := isUnreserved_bounds h
    omega
  · decide
  · decide

/-- What a request for a path with texts as parameters asks for. -/
def targetOf (path : String) (pairs : List (String × String)) : String := path ++ "?" ++ queryOf (textParams pairs)

theorem targetOf_eq (path : String) (pairs : List (String × String)) :
    targetOf path pairs = String.ofList (path.toList ++ '?' :: (queryOf (textParams pairs)).toList) := by
  rw [← String.toList_inj]
  simp [targetOf]

/-- A path that is short and written as it is. -/
structure IsShortPath (path : String) : Prop where
  plain : IsPlainPath path.toList
  short : path.length ≤ 100
  escape_eq : escapePath 0 path.toList = path.toList
  plainPath_eq : plainPath path.toList = path.toList

theorem target?_of_short {b : Base} (hbase : b.path = []) (hpath : IsShortPath path) {pairs : List (String × String)}
    (hne : pairs ≠ []) :
    b.target? path (textParams pairs) =
      if (queryOf (textParams pairs)).length ≤ addressLimit then some (targetOf path pairs) else none := by
  have hshort : (decide (addressLimit < path.toList.length)) = false := by
    have := hpath.short
    rw [String.length_toList]
    exact decide_eq_false (by unfold addressLimit; omega)
  have hcontrol : (path.toList.any fun c => decide (c.toNat < 32) || c.toNat == 127) = false := by
    rw [List.any_eq_false]
    intro c hc
    have hnot := not_control_of_safe (hpath.plain.safe c hc)
    simpa using hnot
  have hhash : path.toList.takeWhile (· != '#') = path.toList := by
    rw [List.takeWhile_eq_self_iff]
    exact fun c hc => bne_iff_ne.2 (hpath.plain.ne hc (by decide) (by decide) (by decide))
  have hcut : cut? '?' path.toList = none :=
    cut?_eq_none fun hin => hpath.plain.ne hin (by decide) (by decide) (by decide) rfl
  have hroot : '/' :: path.toList.dropWhile (· == '/') = path.toList := by
    obtain ⟨c, cs, heq, hc⟩ := hpath.plain.root
    rw [heq]
    simp [hc]
  have hparams : (textParams pairs).isEmpty = false := by
    rw [textParams, List.isEmpty_map]
    exact List.isEmpty_eq_false_iff.2 hne
  have hquery : parameters (String.ofList []) = [] := rfl
  simp only [Base.target?, hshort, hcontrol, Bool.or_self, Bool.false_eq_true, if_false, hhash, hcut, Option.getD_none,
    hbase, List.nil_append, hroot, hpath.escape_eq, hpath.plainPath_eq, hquery, List.filter_nil, List.map_nil, hparams,
    Bool.false_or, decide_eq_true_eq, String.ofList_toList, String.append_assoc, targetOf]
  split <;> split <;> first | rfl | omega

theorem valueOf?_encode (h : body.Sendable) : valueOf? 200 (Text.encode body.write) = some body := by
  obtain ⟨cs, hchars, hvalue⟩ := Json.exists_charsOf_write h
  rw [valueOf?, if_pos (by decide), hchars]
  exact congrArg Except.toOption hvalue

/-- What a client reads with a request: what is found if the line of the request is short enough, with one request for
it, and otherwise what it takes for an answer that says nothing. -/
structure Reads (o : Outside) (w : World) (host target : String) (found default : Value) (act : Act Value) : Prop where
  of_le : (requestLine "GET" target).length ≤ lineLimit →
    act.runIn o w = (.ok found, { w with log := w.log ++ [.requested "GET" host target] })
  of_lt : lineLimit < (requestLine "GET" target).length → (act.runIn o w).1 = .ok default

theorem runIn_request (henabled : c.enabled = true) (htarget : (Base.ofString c.url).target? path params = some target)
    (hdocs : ∀ log, o.docs log = .library) (hget : w.library.get target = .ok (ok body)) (hbody : body.Sendable) :
    (c.request path params none).runIn o w =
      (.ok (if (requestLine "GET" target).length ≤ lineLimit then some body else none),
        { w with log := w.log ++ [.requested "GET" (Base.ofString c.url).host target] }) := by
  have hvalue : valueOf? (ok body).status (ok body).bytes = some body := valueOf?_encode hbody
  rw [Client.request, if_pos henabled]
  simp only [htarget, Option.isSome_none, Bool.false_eq_true, if_false]
  rw [Act.runIn_bind_ok (Act.runIn_observe _ _ _ _), hdocs]
  simp only
  by_cases hline : (requestLine "GET" target).length ≤ lineLimit
  · rw [if_neg (Nat.not_lt.2 hline), if_pos hline, Act.runIn_bind_ok (Act.runIn_get _ _)]
    simp only [hget, Except.toOption, Option.bind_some, hvalue]
    rfl
  · rw [if_pos (Nat.lt_of_not_le hline), if_neg hline]
    rfl

theorem runIn_request_of_target? (htarget : (Base.ofString c.url).target? path params = none) :
    (c.request path params none).runIn o w = (.ok none, w) := by
  rw [Client.request]
  split
  · simp only [htarget]
    rfl
  · rfl

theorem runIn_member_of_target? (htarget : (Base.ofString c.url).target? path params = none) (default : Value) :
    (c.member path params key default).runIn o w = (.ok default, w) := by
  rw [Client.member, Act.runIn_bind_ok (runIn_request_of_target? htarget)]
  rfl

theorem length_requestLine_targetOf (path : String) (pairs : List (String × String)) :
    (requestLine "GET" (targetOf path pairs)).length = path.length + (queryOf (textParams pairs)).length + 16 := by
  simp only [requestLine, targetOf, String.length_append]
  have hget : "GET".length + " ".length = 4 := rfl
  have hmark : "?".length = 1 := rfl
  have hend : " HTTP/1.1\r\n".length = 11 := rfl
  omega

/-- A query that makes the line too long for the server may be too long for the client before. -/
theorem reads_member {c : Client} {o : Outside} {w : World} {path key : String} {found default : Value}
    {pairs : List (String × String)} (henabled : c.enabled = true)
    (hbase : (Base.ofString c.url).path = []) (hpath : IsShortPath path) (hne : pairs ≠ [])
    (hdocs : ∀ log, o.docs log = .library)
    (hget : w.library.get (targetOf path pairs) = .ok (ok (.object [(key, found)])))
    (hbody : (Value.object [(key, found)]).Sendable) :
    Reads o w (Base.ofString c.url).host (targetOf path pairs) found default
      (c.member path (textParams pairs) key default) := by
  have htarget := target?_of_short hbase hpath hne
  have hlength := length_requestLine_targetOf path pairs
  by_cases hquery : (queryOf (textParams pairs)).length ≤ addressLimit
  · rw [if_pos hquery] at htarget
    have hrequest := runIn_request henabled htarget hdocs hget hbody
    refine ⟨fun hle => ?_, fun hlt => ?_⟩
    · rw [Client.member, Act.runIn_bind_ok hrequest, if_pos hle]
      simp only [List.lookup_cons_self, Option.getD_some]
      rfl
    · rw [Client.member, Act.runIn_bind_ok hrequest, if_neg (Nat.not_le.2 hlt)]
      rfl
  · rw [if_neg hquery] at htarget
    refine ⟨fun hle => ?_, fun _ => by rw [runIn_member_of_target? htarget]⟩
    unfold addressLimit at hquery
    unfold lineLimit at hle
    omega

theorem ofString_target (hpath : IsPlainPath path.toList) (pairs : List (String × String)) :
    Target.ofString (targetOf path pairs) = .ok ⟨path, queryOf (textParams pairs)⟩ := by
  rw [targetOf_eq, ofString_append hpath (safe_queryOf pairs), String.ofList_toList, String.ofList_toList]

theorem style_text (c : Client) (language : String) : c.style (.string language) =
    c.member "/api/style-guide" (textParams [("language", language)]) "content" (.string "") := rfl

theorem syncStyle_text (c : Client) (language : String) : c.syncStyle (.string language) =
    c.member "/api/style-guide" (textParams [("language", language)]) "content" (.string "") := rfl

theorem examples_text (c : Client) (pattern target : String) : c.examples (.string pattern) (.string target) =
    c.member "/api/examples" (textParams [("pattern", pattern), ("target", target)]) "examples" (.array []) := rfl

theorem isShortPath (h : path ∈ ["/api/style-guide", "/api/examples"]) : IsShortPath path := by
  rcases List.mem_pair.1 h with rfl | rfl <;>
  exact {
    plain := .of_all ⟨'a', _, rfl, by decide⟩ (by decide)
    short := by decide
    escape_eq := by decide +kernel
    plainPath_eq := by decide +kernel }

theorem get_style (lib : Library) {language : String} (h : language ≠ "") :
    lib.get (targetOf "/api/style-guide" [("language", language)]) =
      .ok (ok (.object [("content", .string (lib.style language))])) := by
  have hparams : parameters (queryOf (textParams [("language", language)])) = [("language", language)] := by
    rw [parameters_queryOf (List.cons_ne_nil _ _)]
    simp [h]
  rw [Library.get, ofString_target (isShortPath (.head _)).plain]
  simp only [bind, Except.bind, hparams]
  rfl

/-- An empty pattern is left out of the query, and a pattern that is left out is empty. -/
theorem get_examples (lib : Library) (pattern target : String) :
    lib.get (targetOf "/api/examples" [("pattern", pattern), ("target", target)]) =
      .ok (ok (.object [("examples", lib.examplesOf pattern)])) := by
  have hlookup : ((parameters (queryOf (textParams [("pattern", pattern), ("target", target)]))).lookup
      "pattern").getD "" = pattern := by
    rw [parameters_queryOf (List.cons_ne_nil _ _)]
    by_cases hpattern : pattern = "" <;> by_cases htarget : target = "" <;> simp [hpattern, htarget]
  rw [Library.get, ofString_target (isShortPath (.tail _ (.head _))).plain]
  simp only [bind, Except.bind]
  rw [hlookup]
  rfl

theorem sendable_object {v : Value} (h : v.Sendable) : (Value.object [(key, v)]).Sendable :=
  .object (List.pairwise_singleton _ key) (List.forall_mem_singleton.2 h)

theorem forall_lookup {p : α → Prop} {entries : Entries α} (h : ∀ entry ∈ entries, p entry.2) (key : String)
    {default : α} (hdefault : p default) : p ((entries.lookup key).getD default) := by
  cases hlookup : entries.lookup key with
  | none => exact hdefault
  | some v =>
    obtain ⟨before, after, heq, -⟩ := List.lookup_eq_some_iff.1 hlookup
    exact h (key, v) (heq ▸ List.mem_append_right before List.mem_cons_self)

theorem sendable_defaultExamples : ∀ entry ∈ defaultExamples, entry.2.Sendable := by
  have hsample : ∀ before after, (Value.array [sample before after]).Sendable := by
    intro before after
    refine .array (List.forall_mem_singleton.2 (.object (by simp) ?_))
    exact List.forall_mem_cons.2 ⟨.string before, List.forall_mem_singleton.2 (.string after)⟩
  exact List.forall_mem_cons.2 ⟨hsample _ _, List.forall_mem_singleton.2 (hsample _ _)⟩

theorem sendable_lastExamples {loads : List Load}
    (h : ∀ pattern samples, Load.examples pattern samples ∈ loads → samples.Sendable) (pattern : String) :
    ((lastExamples? pattern loads).getD ((defaultExamples.lookup pattern).getD (.array []))).Sendable := by
  cases hlast : lastExamples? pattern loads with
  | some samples =>
    obtain ⟨load, hload, hpick⟩ := List.exists_of_findSome?_eq_some hlast
    cases load with
    | style language content | guide source target g => simp [Load.examples?] at hpick
    | examples other samples' =>
      rw [Load.examples?] at hpick
      split at hpick
      · obtain rfl := Option.some.inj hpick
        exact h _ _ (List.mem_reverse.1 hload)
      · simp at hpick
  | none =>
    have hnone : (Value.array []).Sendable := .array fun v hv => absurd hv List.not_mem_nil
    exact forall_lookup sendable_defaultExamples pattern hnone

/-- Whatever a library has loaded, a client that reaches it gets the style guide that was loaded last for a language and
the examples that were loaded last for a pattern, or the defaults of that language and pattern, as long as the line of
its request is one that a server reads. It asks once. For a longer line it gets nothing. -/
theorem reads_last_loads {c : Client} {o : Outside} {w : World} {loads : List Load} (henabled : c.enabled = true)
    (hbase : (Base.ofString c.url).path = []) (hdocs : ∀ log, o.docs log = .library) (hloads : w.library = loaded loads)
    (hsend : ∀ pattern samples, Load.examples pattern samples ∈ loads → samples.Sendable) :
    (∀ language ≠ "", ∀ style ∈ [c.style (.string language), c.syncStyle (.string language)],
      Reads o w (Base.ofString c.url).host (targetOf "/api/style-guide" [("language", language)])
        (.string ((lastStyle? language loads).getD defaultStyle)) (.string "") style) ∧
    ∀ pattern newForm,
      Reads o w (Base.ofString c.url).host (targetOf "/api/examples" [("pattern", pattern), ("target", newForm)])
        ((lastExamples? pattern loads).getD ((defaultExamples.lookup pattern).getD (.array []))) (.array [])
        (c.examples (.string pattern) (.string newForm)) := by
  constructor
  · intro language hlanguage
    have hget := get_style w.library hlanguage
    have hstyle : w.library.style language = (lastStyle? language loads).getD defaultStyle := by
      rw [hloads, style_loaded]
    rw [hstyle] at hget
    have hreads := @reads_member c o w _ _ _ (.string "") _ henabled hbase (isShortPath (.head _))
      (List.cons_ne_nil ("language", language) []) hdocs hget (sendable_object (.string _))
    rw [style_text, syncStyle_text]
    intro style hstyle
    rcases List.mem_pair.1 hstyle with rfl | rfl
    · exact hreads
    · exact hreads
  · intro pattern newForm
    have hget := get_examples w.library pattern newForm
    have hexamples : w.library.examplesOf pattern =
        (lastExamples? pattern loads).getD ((defaultExamples.lookup pattern).getD (.array [])) := by
      rw [hloads, examplesOf_loaded]
    rw [hexamples] at hget
    rw [examples_text]
    exact @reads_member c o w _ _ _ (.array []) _ henabled hbase (isShortPath (.tail _ (.head _)))
      (List.cons_ne_nil ("pattern", pattern) [("target", newForm)]) hdocs hget
      (sendable_object (sendable_lastExamples hsend pattern))

/-- Keys with marks that divide a query, one of them loaded twice, and an empty key. -/
def oddLoads : List Load := [
  .style "c++ & d=1;%41" "first", .style "c" "other", .style "c++ & d=1;%41" "“last”\n", .guide "c" "d" .null,
  .examples "" (.array [.int (-3), .nan]), .examples "日本" (.object [("é", .string "\t")])]

theorem reads_last_loads_odd : (⟨"http://docs:8080/", true⟩ : Client).enabled = true ∧
    (Base.ofString "http://docs:8080/").path = [] ∧
    (∀ pattern samples, Load.examples pattern samples ∈ oddLoads → samples.Sendable) ∧
    ((⟨"http://docs:8080/", true⟩ : Client).syncStyle (.string "c++ & d=1;%41")).runIn
        { docs := fun _ => .library } { library := loaded oddLoads } =
      (.ok (.string "“last”\n"),
        { library := loaded oddLoads,
          log := [.requested "GET" "docs" "/api/style-guide?language=c%2B%2B%20%26%20d%3D1%3B%2541"] }) := by
  have hpath : (Base.ofString "http://docs:8080/").path = [] := by decide +kernel
  have hhost : (Base.ofString "http://docs:8080/").host = "docs" := by decide +kernel
  have hlast : (lastStyle? "c++ & d=1;%41" oddLoads).getD defaultStyle = "“last”\n" := by decide +kernel
  have hint : Json.Readable (-3) := by decide +kernel
  have hsend : ∀ pattern samples, Load.examples pattern samples ∈ oddLoads → samples.Sendable := by
    simp only [oddLoads, List.mem_cons, reduceCtorEq, Load.examples.injEq, List.not_mem_nil, or_false, false_or]
    rintro pattern samples (⟨-, rfl⟩ | ⟨-, rfl⟩)
    · exact .array (List.forall_mem_cons.2 ⟨.int hint, List.forall_mem_singleton.2 .nan⟩)
    · exact sendable_object (.string _)
  have htarget : targetOf "/api/style-guide" [("language", "c++ & d=1;%41")] =
      "/api/style-guide?language=c%2B%2B%20%26%20d%3D1%3B%2541" := by decide +kernel
  have hreads := (@reads_last_loads ⟨"http://docs:8080/", true⟩ { docs := fun _ => .library }
    { library := loaded oddLoads } oddLoads rfl hpath (fun _ => rfl) rfl hsend).1 "c++ & d=1;%41" (by decide) _
      (List.mem_cons_of_mem _ List.mem_cons_self)
  rw [hlast, hhost, htarget] at hreads
  exact ⟨rfl, hpath, hsend, hreads.of_le (by decide)⟩

/-- A language of more characters than an address has room for is not even asked for. -/
theorem runIn_style_of_long {c : Client} (hbase : (Base.ofString c.url).path = []) {language : String}
    (hlong : addressLimit < language.length) (o : Outside) (w : World) :
    (c.style (.string language)).runIn o w = (.ok (.string ""), w) := by
  have hquery : addressLimit < (queryOf (textParams [("language", language)])).length := by
    have hescape := length_le_length_escape isUnreserved language.toList
    rw [← String.length_toList] at hlong
    rw [← String.length_toList, toList_queryOf]
    simp only [List.map_cons, List.map_nil, List.intercalate_singleton, pieceOf, List.length_append, List.length_cons]
    omega
  have htarget := target?_of_short hbase (isShortPath (.head _)) (List.cons_ne_nil ("language", language) [])
  rw [if_neg (Nat.not_le.2 hquery)] at htarget
  rw [style_text]
  exact runIn_member_of_target? htarget _

/-- For such a language nothing comes back in the place of the default. -/
theorem long_language_reads_nothing :
    ((⟨"http://docs:8080/", true⟩ : Client).style (.string (String.ofList (List.replicate 70000 'a')))).runIn
        { docs := fun _ => .library } { library := loaded [] } =
      (.ok (.string ""), { library := loaded [] }) ∧
    (lastStyle? (String.ofList (List.replicate 70000 'a')) []).getD defaultStyle ≠ "" := by
  have hbase : (Base.ofString "http://docs:8080/").path = [] := by decide +kernel
  refine ⟨@runIn_style_of_long ⟨"http://docs:8080/", true⟩ hbase _ ?_ _ _, by decide +kernel⟩
  rw [String.length_ofList, List.length_replicate]
  decide

end CodeMigration.Docs
