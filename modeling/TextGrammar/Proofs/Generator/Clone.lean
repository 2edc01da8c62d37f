import TextGrammar.Proofs.Generator.Calls
import TextGrammar.Proofs.Generator.Requests
import TextGrammar.Proofs.Generator.Validated

/-! Clones: from the start of its seed the original answers every request as its clone does. -/
namespace TextGrammar

/-- A name and the values of a static rule, as they are registered. The name is written as it was
given first. -/
def Entry.IsWrittenAs (entry : Entry) (member : Datum × Datum) : Prop :=
  member.1.text? = some entry.name ∧ member.1.display = entry.shown ∧
    ∃ values, entry.rule = .static { values } ∧ member.2 = .list (values.map .text)

namespace Store

variable {store store' : Store}

/-- Members of a mapping that write down the static rules of a store, in their order. -/
def IsExportedAs (store : Store) (members : List (Datum × Datum)) : Prop :=
  List.Forall₂ Entry.IsWrittenAs store.entries members

/-- Every name was given as something that shows as it does. -/
def IsNamed (store : Store) : Prop :=
  ∀ entry ∈ store.entries, ∃ name : Datum, name.text? = some entry.name ∧ name.display = entry.shown

theorem IsNamed.putEntry (h : store.IsNamed) {added : Entry}
    (hadded : ∃ name : Datum, name.text? = some added.name ∧ name.display = added.shown) :
    (⟨Store.putEntry added store.entries⟩ : Store).IsNamed := by
  obtain ⟨entries⟩ := store
  induction entries with
  | nil =>
    intro entry hentry
    obtain rfl := List.mem_singleton.1 hentry
    exact hadded
  | cons first rest ih =>
    obtain ⟨hfirst, hrest⟩ := List.forall_mem_cons.1 h
    simp only [Store.putEntry]
    split
    · exact List.forall_mem_cons.2 ⟨hfirst, hrest⟩
    · exact List.forall_mem_cons.2 ⟨hfirst, ih hrest⟩

theorem isNamed_isInvariant : IsInvariant IsNamed where
  empty _ hentry := absurd hentry List.not_mem_nil
  register {store store' given rule shadowing} h _ hregister := by
    simp only [register] at hregister
    split at hregister
    · cases hregister
    · rename_i hname
      split at hregister
      · cases hregister
      · cases hregister
        exact h.putEntry ⟨given, hname, rfl⟩
  filter _ h entry hentry := h entry (List.mem_filter.1 hentry).1
  drawShown store shown name scope source h := by
    simp only [drawShown]
    split
    · exact h
    · exact h.putEntry ⟨.text name, rfl, rfl⟩
  restart {store store' name} h hrestart := by
    simp only [restart?] at hrestart
    split at hrestart
    · cases hrestart
      exact h.putEntry ⟨.text name, rfl, rfl⟩
    · cases hrestart

/-- Static rules can be written down. -/
theorem exists_isExportedAs (hstatic : store.IsStatic) (hnamed : store.IsNamed) :
    ∃ members, store.IsExportedAs members := by
  obtain ⟨entries⟩ := store
  induction entries with
  | nil => exact ⟨[], .nil⟩
  | cons entry rest ih =>
    obtain ⟨hname, hrest⟩ := List.forall_mem_cons.1 hnamed
    obtain ⟨name, htext, hdisplay⟩ := hname
    obtain ⟨values, hvalues⟩ := hstatic.exists_static List.mem_cons_self
    obtain ⟨members, hmembers⟩ :=
      ih (fun other hother => hstatic other (List.mem_cons_of_mem _ hother)) hrest
    exact ⟨(name, .list (values.map .text)) :: members,
      .cons ⟨htext, hdisplay, values, hvalues, rfl⟩ hmembers⟩

theorem IsStatic.table_static (h : store.IsStatic) : store.table .static = store.entries :=
  List.filter_eq_self.2 fun entry hentry => decide_eq_true (h entry hentry)

theorem putEntry_of_new {added : Entry} {entries : List Entry}
    (h : ∀ entry ∈ entries, entry.name ≠ added.name) :
    Store.putEntry added entries = entries ++ [added] := by
  induction entries with
  | nil => rfl
  | cons first rest ih =>
    obtain ⟨hfirst, hrest⟩ := List.forall_mem_cons.1 h
    rw [Store.putEntry, if_neg fun heq => hfirst heq.1, ih hrest, List.cons_append]

/-- A name that is new is registered at the end, and shadows nothing. -/
theorem register_of_new {name : Datum} {key : String} {rule : Rule} (hkey : name.text? = some key)
    (hne : key ≠ "") (hnew : ∀ entry ∈ store.entries, entry.name ≠ key) :
    store.register name rule =
      .ok (⟨store.entries ++ [{ name := key, rule, shown := name.display }]⟩, none) := by
  have hkind : store.kind? key = none := by
    rw [← Option.not_isSome_iff_eq_none, isSome_kind?_iff]
    intro hhas
    obtain ⟨entry, hentry, hname⟩ := List.any_eq_true.1 hhas
    exact hnew entry hentry (by simpa using hname)
  have hshadowing : store.shadowing? key name.display rule.kind = none := by
    rw [shadowing?, hkind]
  have hput : Store.putEntry { name := key, rule, shown := name.display } store.entries =
      store.entries ++ [{ name := key, rule, shown := name.display }] := putEntry_of_new hnew
  simp only [register, hkey, hshadowing, hput]
  rw [if_neg (by simpa using hne)]

end Store

theorem textItems_text (part : ValuePart) (values : List String) :
    textItems part (values.map .text) = .ok values := by
  induction values with
  | nil => rfl
  | cons value rest ih =>
    rw [List.map_cons, textItems, ih]
    rfl

namespace Generator

variable {generator : Generator}

theorem registerStatic_texts (name : Datum) (values : List String) :
    registerStatic name (.list (values.map .text)) = register name (.static { values }) := by
  have hdefine : Rule.Static.define (.list (values.map .text) : Datum) = .ok { values } := by
    change (textItems .rule (values.map .text) >>= fun values => .ok ({ values } : Rule.Static)) = _
    rw [textItems_text]
    rfl
  rw [registerStatic, hdefine]
  rfl

/-- Rules that are written down are registered after those there already. -/
theorem registerMembers_exported {done rest : List Entry} {members : List (Datum × Datum)}
    (hnames : ((done ++ rest).map (·.name)).Nodup) (hne : ∀ entry ∈ rest, entry.name ≠ "")
    (hwritten : List.Forall₂ Entry.IsWrittenAs rest members) :
    registerMembers members (generator.withStore ⟨done⟩) =
      (.ok (), generator.withStore ⟨done ++ rest⟩) := by
  induction hwritten generalizing done with
  | nil =>
    rw [List.append_nil]
    rfl
  | @cons entry member rest members hentry _ ih =>
    obtain ⟨htext, hshown, values, hrule, hvalues⟩ := hentry
    obtain ⟨hfirst, hothers⟩ := List.forall_mem_cons.1 hne
    have hnew : ∀ other ∈ done, other.name ≠ entry.name := by
      rw [List.map_append, List.map_cons] at hnames
      obtain ⟨-, -, hdisjoint⟩ := List.nodup_append.1 hnames
      intro other hother
      exact hdisjoint other.name (List.mem_map_of_mem hother) entry.name List.mem_cons_self
    have hsame : ({ name := entry.name, rule := .static { values }, shown := member.1.display } :
        Entry) = entry := by
      rw [hshown, ← hrule]
    have hregister := @Store.register_of_new ⟨done⟩ _ _ (.static { values }) htext hfirst hnew
    rw [hsame] at hregister
    have hstore : (generator.withStore ⟨done⟩).store = ⟨done⟩ := rfl
    rw [registerMembers, bind_apply, hvalues, registerStatic_texts, register_eq, hstore, hregister]
    have hrest := @ih (done ++ [entry]) (by rwa [List.append_assoc]) hothers
    rw [List.append_assoc] at hrest
    exact hrest

theorem create_eq_ok {maxDepth seed : Datum} {analysis : AnalysisSettings} {retry : RetrySettings}
    {ambient stackRoom : Nat}
    (h : create maxDepth seed analysis retry ambient stackRoom = .ok generator) :
    generator.store = ∅ ∧ 1 ≤ generator.maxDepth := by
  simp only [create] at h
  split at h
  all_goals
    obtain ⟨source, -, h⟩ := bind_eq_ok.1 h
    obtain ⟨depth, hdepth, h⟩ := bind_eq_ok.1 h
    obtain rfl := pure_eq_ok.1 h
    exact ⟨rfl, (checkDepth_eq_ok.1 hdepth).2⟩

/-- A registration changes the rules and may give a notice. -/
theorem register_keeps {γ : Type} {see : Generator → γ}
    (hstore : ∀ generator store, see (withStore store generator) = see generator)
    (hnotice : ∀ generator message, see (generator.notice message) = see generator) (name : Datum)
    (rule : Rule) : Keeps see (register name rule) := by
  intro generator
  rw [register_eq]
  split
  · rfl
  · exact hstore _ _
  · exact (hnotice _ _).trans (hstore _ _)

theorem register_keeps_maxDepth (name : Datum) (rule : Rule) :
    Keeps Generator.maxDepth (register name rule) :=
  register_keeps (fun _ _ => rfl) (fun _ _ => rfl) name rule

theorem keeps_maxDepth_isClosed : Registration.IsClosed (Keeps Generator.maxDepth) where
  nothing := Keeps.pure ()
  refused failure := check_keeps (.error failure)
  register name {rule} _ := register_keeps_maxDepth name rule
  install _ _ := rfl
  andThen hfirst hnext := hfirst.bind fun _ => hnext

theorem remove_keeps {γ : Type} {see : Generator → γ} {isEmpty : Generator → Bool}
    {has : Generator → String → Bool} {erase : Generator → String → Generator}
    {name : Datum} (h : ∀ generator key, name.name? = .ok (some key) →
      see (erase generator key) = see generator) :
    Keeps see (remove isEmpty has erase name) := by
  intro generator
  refine @remove_preserves (fun after => see after = see generator) isEmpty has erase name ?_
    generator rfl
  intro after key hkey hafter
  rw [h after key hkey, hafter]

/-- To remove a rule changes the rules only. -/
theorem removeRule_keeps {γ : Type} {see : Generator → γ}
    (hstore : ∀ generator store, see (withStore store generator) = see generator) (kind : RuleKind)
    (name : Datum) : Keeps see (removeRule kind name) :=
  remove_keeps fun generator _ _ => hstore generator _

theorem removeRules_keeps {γ : Type} {see : Generator → γ}
    (hstore : ∀ generator store, see (withStore store generator) = see generator) (name : Datum) :
    Keeps see (removeRules name) :=
  remove_keeps fun generator _ _ => hstore generator _

theorem removeRule_keeps_maxDepth (kind : RuleKind) (name : Datum) :
    Keeps Generator.maxDepth (removeRule kind name) :=
  removeRule_keeps (fun _ _ => rfl) kind name

theorem removeRules_keeps_maxDepth (name : Datum) :
    Keeps Generator.maxDepth (removeRules name) :=
  removeRules_keeps (fun _ _ => rfl) name

theorem removeModifier_keeps_maxDepth (name : Datum) :
    Keeps Generator.maxDepth (removeModifier name) := by
  refine remove_keeps ?_
  intro generator key _
  rfl

end Generator

namespace Request

open Generator

variable {α : Type}

theorem preserves_maxDepth (request : Request α) : Preserves (1 ≤ ·.maxDepth) request.perform := by
  have hkept {β : Type} {action : Action β} (h : Keeps configuration action) :
      Preserves (1 ≤ ·.maxDepth) action := (h.part Configuration.maxDepth).preserves (1 ≤ ·)
  cases request with
  | ask inquiry =>
    intro generator hdepth
    exact hdepth
  | register registration => exact (keeps_maxDepth_isClosed.perform registration).preserves (1 ≤ ·)
  | removeRule kind name => exact (removeRule_keeps_maxDepth kind name).preserves (1 ≤ ·)
  | removeRules name => exact (removeRules_keeps_maxDepth name).preserves (1 ≤ ·)
  | removeModifier name => exact (removeModifier_keeps_maxDepth name).preserves (1 ≤ ·)
  | restart name =>
    intro generator hdepth
    simp only [perform]
    split
    · exact hdepth
    · exact hdepth
  | limitDepth depth =>
    exact check_bind_preserves fun _ hvalue _ _ => (checkDepth_eq_ok.1 hvalue).2
  | seedWith seed => exact (check_preserves _).bind fun _ => modify_preserves fun _ hdepth => hdepth
  | parse text keepContext => exact hkept (parse_keeps text keepContext)
  | parseReported text keepContext => exact hkept (parseReported_keeps text keepContext)
  | parseWith text options => exact hkept (parseWith_keeps text options)
  | parseAll texts keepContext => exact hkept (parseAll_keeps texts keepContext)
  | variations text count seed => exact hkept (variations_keeps text count seed)
  | expand text keepContext => exact hkept (expand_keeps text keepContext)
  | resolve name scope => exact hkept (resolve_keeps name scope)
  | _ => exact modify_preserves fun _ hdepth => hdepth

end Request

theorem Session.run_preserves {holds : Generator → Prop}
    (h : ∀ {α : Type} (request : Request α), Preserves holds request.perform) (session : Session)
    {generator : Generator} (hholds : holds generator) : holds (session.run generator) := by
  induction session generalizing generator with
  | nil => exact hholds
  | cons first rest ih => exact ih (h first.2 generator hholds)

/-- Forgets the context and goes back to the start of a seed. -/
def Session.rewind (seed : Fin stateCount) : Session :=
  [⟨Unit, .forgetContext⟩, ⟨Unit, .seedWith (.number (.whole seed.val))⟩]

theorem Pipeline.eq_empty_of_size {pipeline : Pipeline} (h : pipeline.size = 0) : pipeline = ∅ := by
  obtain ⟨⟨modifiers⟩⟩ := pipeline
  obtain rfl := List.length_eq_zero_iff.1 h
  rfl

namespace Generator

variable {original : Generator} {seed : Fin stateCount}

theorem clone_of_static (hstatic : original.store.IsStatic) (hseed : original.source.seed = some seed) :
    original.clone = { original with
      engine := {
        store := original.store
        source := (Source.unseeded original.source.ambient).seedWith seed.val
        context := ∅ }
      pipeline := ∅
      log := [] } := by
  simp only [clone, hstatic.table_static, hseed]

theorem checkSeed_whole (n : Int) : checkSeed (.number (.whole n)) = .ok n := rfl

theorem run_rewind (hstatic : original.store.IsStatic) (hplain : original.pipeline.size = 0)
    (hseed : original.source.seed = some seed) :
    (Session.rewind seed).run original = withEarlier original.log original.clone := by
  rw [clone_of_static hstatic hseed, Session.rewind]
  simp only [Session.run, Request.perform, Generator.seedWith, check_bind, checkSeed_whole]
  rw [withEarlier, List.append_nil, ← Pipeline.eq_empty_of_size hplain]
  rfl

/-- A new generator with the settings and the seed of another one, on which its rules are registered
as they are written down. -/
def IsCopy (original : Generator) (seed : Fin stateCount) (copy : Generator) : Prop :=
  ∃ fresh,
    create (.number (.whole original.maxDepth)) (.number (.whole seed.val)) original.analysis
      original.retry original.source.ambient original.stackRoom = .ok fresh ∧
    (∃ members, original.store.IsExportedAs members) ∧
    ∀ members, original.store.IsExportedAs members →
      registerAll (.mapping members) fresh = (.ok (), copy)

theorem create_again (hdepth : 1 ≤ original.maxDepth) (hstatic : original.store.IsStatic)
    (hseed : original.source.seed = some seed) :
    create (.number (.whole original.maxDepth)) (.number (.whole seed.val)) original.analysis
      original.retry original.source.ambient original.stackRoom = .ok (original.clone.withStore ∅) := by
  rw [create, checkDepth_eq_ok.2 ⟨rfl, hdepth⟩, clone_of_static hstatic hseed]
  · rfl
  · rintro ⟨⟩

theorem isCopy_clone (hformed : original.store.WellFormed) (hnamed : original.store.IsNamed)
    (hdepth : 1 ≤ original.maxDepth) (hstatic : original.store.IsStatic)
    (hseed : original.source.seed = some seed) : original.IsCopy seed original.clone := by
  refine ⟨_, create_again hdepth hstatic hseed, Store.exists_isExportedAs hstatic hnamed, ?_⟩
  intro members hmembers
  have hnames : (original.store.entries.map (·.name)).Nodup := by
    rw [← hstatic.table_static]
    exact hformed.isConsistent.keys .static
  have hne : ∀ entry ∈ original.store.entries, entry.name ≠ "" :=
    fun entry hentry => (hformed.rules entry hentry).1
  have hregistered := @registerMembers_exported original.clone [] _ _ hnames hne hmembers
  rw [registerAll]
  refine hregistered.trans ?_
  rw [clone_of_static hstatic hseed]
  rfl

/-- Whatever a generator with a seed has been through, when it has static rules and no modifiers: its
rules can be written down, and registering them on a new generator makes the clone. Once its context
is cleared and its seed is set again, it answers every session as the clone does. -/
theorem clone_answers {maxDepth seed : Datum} {analysis : AnalysisSettings} {retry : RetrySettings}
    {ambient stackRoom : Nat} {start : Generator}
    (hcreate : create maxDepth seed analysis retry ambient stackRoom = .ok start) {history : Session}
    {original : Generator} (hhistory : history.run start = original)
    (hstatic : original.store.IsStatic) (hplain : original.pipeline.size = 0) {stored : Fin stateCount}
    (hseed : original.source.seed = some stored) :
    original.IsCopy stored original.clone ∧
    ∀ session : Session,
      Session.answers original (Session.rewind stored ++ session) =
        ⟨Unit, .ok ()⟩ :: ⟨Unit, .ok ()⟩ :: Session.answers original.clone session ∧
      Session.run original (Session.rewind stored ++ session) =
        withEarlier original.log (Session.run original.clone session) := by
  obtain ⟨hnew, hpositive⟩ := create_eq_ok hcreate
  have hstore {holds : Store → Prop} (h : Store.IsInvariant holds) : holds original.store := by
    rw [← hhistory]
    refine Session.run_preserves (Request.preserves_store h) history ?_
    rw [hnew]
    exact h.empty
  have hdepth : 1 ≤ original.maxDepth := by
    rw [← hhistory]
    exact Session.run_preserves Request.preserves_maxDepth history hpositive
  refine ⟨isCopy_clone (hstore Store.wellFormed_isInvariant) (hstore Store.isNamed_isInvariant) hdepth
    hstatic hseed, fun session => ?_⟩
  -- once it is rewound, the original is the clone but for the notices given before
  have hrewind := run_rewind hstatic hplain hseed
  obtain ⟨hanswers, hrun⟩ := session.answers_withEarlier original.log original.clone
  rw [← hrewind] at hanswers hrun
  refine ⟨?_, hrun⟩
  rw [← hanswers]
  rfl

def startSeed : Fin stateCount := ⟨7, by decide⟩

def seededGenerator : Generator :=
  { Generator.default 0 100 with engine := { (Generator.default 0 100).engine with
      source := (Source.unseeded 0).seedWith startSeed.val } }

/-- A rule is replaced, and one of another kind comes under a name and goes again. -/
def editedHistory : Session :=
  [⟨_, .register (.static (.text "a") (.list [.text "x", .text "y"]))⟩,
    ⟨_, .register (.static (.text "b") (.list [.text "%a%"]))⟩,
    ⟨_, .register (.sequential (.text "b") (.list [.text "z"]) (.flag true))⟩,
    ⟨_, .register (.static (.text "a") (.list [.text "y", .text "z"]))⟩,
    ⟨_, .parse (.text "%a%") false⟩,
    ⟨_, .removeRule .sequential (.text "b")⟩]

theorem clone_answers_editedHistory :
    create (.number (.whole 100)) (.number (.whole 7)) {} {} 0 100 = .ok seededGenerator ∧
    (editedHistory.run seededGenerator).store.IsStatic ∧
    (editedHistory.run seededGenerator).pipeline.size = 0 ∧
    (editedHistory.run seededGenerator).source.seed = some startSeed ∧
    (editedHistory.run seededGenerator).IsCopy startSeed (editedHistory.run seededGenerator).clone ∧
    ∀ session : Session,
      Session.answers (editedHistory.run seededGenerator) (Session.rewind startSeed ++ session) =
        ⟨Unit, .ok ()⟩ :: ⟨Unit, .ok ()⟩ ::
          Session.answers (editedHistory.run seededGenerator).clone session := by
  have hcreate : create (.number (.whole 100)) (.number (.whole 7)) {} {} 0 100 =
      .ok seededGenerator := rfl
  have hstatic : (editedHistory.run seededGenerator).store.IsStatic := by
    change ∀ entry ∈ (editedHistory.run seededGenerator).store.entries, entry.rule.kind = .static
    decide +kernel
  have hplain : (editedHistory.run seededGenerator).pipeline.size = 0 := by decide +kernel
  have hseed : (editedHistory.run seededGenerator).source.seed = some startSeed := by decide +kernel
  obtain ⟨hcopy, hsessions⟩ := clone_answers hcreate rfl hstatic hplain hseed
  exact ⟨hcreate, hstatic, hplain, hseed, hcopy, fun session => (hsessions session).1⟩

end Generator

end TextGrammar
