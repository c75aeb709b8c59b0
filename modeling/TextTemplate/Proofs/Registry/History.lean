import TextTemplate.Proofs.Registry.Lookup
import TextTemplate.Proofs.Registry.Session
import TextTemplate.Proofs.Registry.Tags

/-! What the registries hold is what the operations before have written last. -/

namespace TextTemplate

/-! Writes to a registry: a definition, or none where a name is taken out -/

abbrev WriteLog (α : Type) := List (String × Option α)

namespace Dict
variable {α : Type}

def write (d : Dict α) : String × Option α → Dict α
  | (name, some a) => d.insert name a
  | (name, none) => d.erase name

theorem get?_write (d : Dict α) (name name' : String) (a : Option α) :
    (d.write (name, a)).get? name' = if name' = name then a else d.get? name' := by
  cases a with
  | none => exact get?_erase
  | some a => exact get?_insert

end Dict

/-- What was last written under a name. -/
def WriteLog.last? {α : Type} (ws : WriteLog α) (name : String) : Option (Option α) :=
  ws.reverse.lookup name

theorem get?_foldl_write {α : Type} (ws : WriteLog α) (d : Dict α) (name : String) :
    (ws.foldl Dict.write d).get? name = (ws.last? name).getD (d.get? name) := by
  induction ws generalizing d with
  | nil => rfl
  | cons w ws ih =>
    obtain ⟨name', a⟩ := w
    rw [List.foldl_cons, ih, Dict.get?_write, WriteLog.last?, WriteLog.last?, List.reverse_cons,
      List.lookup_append]
    cases ws.reverse.lookup name with
    | some b => rfl
    | none =>
      by_cases hn : name = name'
      · simp [hn]
      · simp [hn, List.lookup_cons, beq_eq_false_iff_ne.2 hn]

/-! Histories -/

/-- The registry that an operation works on, if any. -/
inductive Registry
  | helpers
  | partials
deriving DecidableEq

def Operation.registry? : Operation → Option Registry
  | registerHelper _ _ | unregisterHelper _ => some .helpers
  | parse _ | registerPartial _ _ | registerTemplate _ _ | registerNative _ _
  | unregisterPartial _ => some .partials
  | compile _ | setDelimiters _ _ | render _ _ _ | renderNamed _ _ _ => none

def inlineWrites (ps : List (String × Template)) : WriteLog Registered :=
  ps.map fun (name, p) => (name, some (.template p))

/-- What a source registers that compiles: the partials that it defines in their order, and last
itself. -/
def templateWrites (recursion : String) (t : Template) : WriteLog Registered :=
  inlineWrites t.partials ++ [(recursion, some (.template t))]

namespace Transaction

/-- What a successful operation writes to the helpers. -/
def helperWrites (v : Transaction) : WriteLog Helper :=
  match v.result, v.operation with
  | .error _, _ => []
  | .ok _, .registerHelper name helper => [(name, some helper)]
  | .ok _, .unregisterHelper name => [(name, none)]
  | .ok _, _ => []

/-- What a successful operation writes to the partials, where tags have these delimiters. -/
def partialWrites (delimiters : Delimiters) (recursion : String) (v : Transaction) :
    WriteLog Registered :=
  match v.result, v.operation with
  | .error _, _ => []
  | .ok _, .parse source =>
    match Template.compile delimiters source with
    | .ok t => templateWrites recursion t
    | .error _ => []
  | .ok _, .registerPartial name source =>
    match Template.compile delimiters source with
    | .ok t => [(name, some (.template t))]
    | .error _ => []
  | .ok _, .registerTemplate name t => [(name, some (.template t))]
  | .ok _, .registerNative name f => [(name, some (.native f))]
  | .ok _, .unregisterPartial name => [(name, none)]
  | .ok _, _ => []

/-- The delimiters after an operation. -/
def delimiters (before : Delimiters) (v : Transaction) : Delimiters :=
  match v.result, v.operation with
  | .ok _, .setDelimiters opening closing => ((Delimiters.of opening closing).toOption).getD before
  | _, _ => before

end Transaction

/-- What operations have written so far, and the delimiters that they left. -/
structure History where
  delimiters : Delimiters
  helpers : WriteLog Helper
  partials : WriteLog Registered

namespace History

def begin (delimiters : Delimiters) : History := ⟨delimiters, [], []⟩

def add (recursion : String) (h : History) (v : Transaction) : History where
  delimiters := v.delimiters h.delimiters
  helpers := h.helpers ++ v.helperWrites
  partials := h.partials ++ v.partialWrites h.delimiters recursion

/-- The helper of a name: the one last registered, or a built-in one. -/
def helper? (h : History) (name : String) : Option Helper :=
  (h.helpers.last? name).getD (Helper.builtin.get? name)

/-- The partial of a name: the one last registered. -/
def partial? (h : History) (name : String) : Option Registered :=
  (h.partials.last? name).getD none

end History

namespace Session

/-- One operation writes what its transaction says, and changes nothing else. -/
structure Changes (s : Session) (v : Transaction) (s' : Session) : Prop where
  helpers : s'.engine.helpers = v.helperWrites.foldl Dict.write s.engine.helpers
  partials : s'.engine.partials =
    (v.partialWrites s.compiler s.engine.options.recursion).foldl Dict.write s.engine.partials
  options : s'.engine.options =
    { s.engine.options with delimiters := v.delimiters s.engine.options.delimiters }
  compiler : s'.compiler = v.delimiters s.compiler

theorem Changes.refused (s : Session) (o : Operation) (e : EngineError) :
    s.Changes ⟨o, .error e⟩ s :=
  ⟨rfl, rfl, rfl, rfl⟩

theorem registerAll_eq (ps : List (String × Template)) (e : Engine) :
    e.registerAll ps = { e with partials := (inlineWrites ps).foldl Dict.write e.partials } := by
  induction ps generalizing e with
  | nil => rfl
  | cons p ps ih => exact ih _

theorem options_registerAll (ps : List (String × Template)) (e : Engine) :
    (e.registerAll ps).options = e.options := by
  rw [registerAll_eq]

theorem perform_changes (s : Session) (o : Operation) :
    s.Changes ⟨o, (s.perform o).1⟩ (s.perform o).2 := by
  cases o with
  | compile source =>
    cases h : Template.compile s.compiler source with
    | error e =>
      rw [perform_compile_of_error h]
      exact .refused _ _ _
    | ok t =>
      rw [perform_compile_of_ok h]
      exact ⟨rfl, rfl, rfl, rfl⟩
  | parse source =>
    cases h : Template.compile s.compiler source with
    | error e =>
      rw [perform_parse_of_error h]
      exact .refused _ _ _
    | ok t =>
      rw [perform_parse_of_ok h, Engine.registerParsed, registerAll_eq]
      refine ⟨rfl, ?_, rfl, rfl⟩
      simp only [Transaction.partialWrites, h, templateWrites, List.foldl_append]
      rfl
  | registerHelper name helper => exact ⟨rfl, rfl, rfl, rfl⟩
  | unregisterHelper name => exact ⟨rfl, rfl, rfl, rfl⟩
  | registerPartial name source =>
    cases h : Template.compile s.compiler source with
    | error e =>
      rw [perform_registerPartial_of_error h]
      exact .refused _ _ _
    | ok t =>
      rw [perform_registerPartial_of_ok h]
      refine ⟨rfl, ?_, rfl, rfl⟩
      simp only [Transaction.partialWrites, h]
      rfl
  | registerTemplate name t => exact ⟨rfl, rfl, rfl, rfl⟩
  | registerNative name f => exact ⟨rfl, rfl, rfl, rfl⟩
  | unregisterPartial name => exact ⟨rfl, rfl, rfl, rfl⟩
  | setDelimiters opening closing =>
    cases h : Delimiters.of opening closing with
    | error e =>
      rw [perform_setDelimiters_of_error h]
      exact .refused _ _ _
    | ok d =>
      rw [perform_setDelimiters_of_ok h]
      refine ⟨rfl, rfl, ?_, ?_⟩
      · simp only [Transaction.delimiters, h]
        rfl
      · simp only [Transaction.delimiters, h]
        rfl
  | render t data extra =>
    rw [perform_render]
    cases (s.engine.render t data extra).result <;> exact ⟨rfl, rfl, rfl, rfl⟩
  | renderNamed name data extra =>
    rw [perform_renderNamed]
    cases (s.engine.renderNamed name data extra).result <;> exact ⟨rfl, rfl, rfl, rfl⟩

/-- A session after a history: the registries hold what was written, one write after the other, and
of the options only the delimiters have changed. -/
structure Reflects (options : Options) (h : History) (s : Session) : Prop where
  helpers : s.engine.helpers = h.helpers.foldl Dict.write Helper.builtin
  partials : s.engine.partials = h.partials.foldl Dict.write []
  options : s.engine.options = { options with delimiters := h.delimiters }
  compiler : s.compiler = h.delimiters

section
variable {options : Options} {h : History} {s s' : Session} {v : Transaction}

theorem Reflects.add (hr : s.Reflects options h) (hc : s.Changes v s') :
    s'.Reflects options (h.add options.recursion v) where
  helpers := by rw [hc.helpers, hr.helpers, History.add, List.foldl_append]
  partials := by
    have hrecursion : s.engine.options.recursion = options.recursion := by rw [hr.options]
    rw [hc.partials, hr.partials, hr.compiler, hrecursion, History.add, List.foldl_append]
  options := by
    rw [hc.options, hr.options]
    rfl
  compiler := by
    rw [hc.compiler, hr.compiler]
    rfl

theorem Reflects.run (hr : s.Reflects options h) (os : List Operation) :
    (s.run os).2.Reflects options ((s.run os).1.foldl (History.add options.recursion) h) := by
  induction os generalizing s h with
  | nil => exact hr
  | cons o os ih => exact ih (hr.add (s.perform_changes o))

theorem Reflects.create {opening closing : String} (hs : create options opening closing = .ok s) :
    s.Reflects options (.begin s.compiler) := by
  rw [Session.create] at hs
  split at hs
  · cases hs
    exact ⟨rfl, rfl, rfl, rfl⟩
  · cases hs

theorem Reflects.get?_helpers (hr : s.Reflects options h) (name : String) :
    s.engine.helpers.get? name = h.helper? name := by
  rw [hr.helpers, get?_foldl_write]
  rfl

theorem Reflects.get?_partials (hr : s.Reflects options h) (name : String) :
    s.engine.partials.get? name = h.partial? name := by
  rw [hr.partials, get?_foldl_write]
  rfl

theorem Reflects.rendersBy (hr : s.Reflects options h) :
    s.engine.RendersBy h.helper? h.partial? := by
  rw [← funext hr.get?_helpers, ← funext hr.get?_partials]
  exact s.engine.rendersBy

end

/-- The history of a run of operations. -/
def history (s : Session) (os : List Operation) : History :=
  (s.run os).1.foldl (History.add s.engine.options.recursion) (.begin s.compiler)

end Session

/-- What the engine itself does of an operation. -/
def Engine.perform (e : Engine) : Operation → Except EngineError Answer × Engine
  | .compile source => ((e.compile source).map .template, e)
  | .parse source =>
    match e.parse source with
    | .ok (t, e) => (.ok (.template t), e)
    | .error err => (.error err, e)
  | .registerHelper name helper => (.ok .done, e.registerHelper name helper)
  | .unregisterHelper name =>
    (.ok (.wasThere (e.unregisterHelper name).1), (e.unregisterHelper name).2)
  | .registerPartial name source =>
    match e.registerPartial name source with
    | .ok e => (.ok .done, e)
    | .error err => (.error err, e)
  | .registerTemplate name t => (.ok .done, e.registerTemplate name t)
  | .registerNative name f => (.ok .done, e.registerNative name f)
  | .unregisterPartial name =>
    (.ok (.wasThere (e.unregisterPartial name).1), (e.unregisterPartial name).2)
  | .setDelimiters opening closing =>
    match e.setDelimiters opening closing with
    | .ok e => (.ok .done, e)
    | .error err => (.error err, e)
  | .render t data extra => ((e.render t data extra).result.map .text, e)
  | .renderNamed name data extra => ((e.renderNamed name data extra).result.map .text, e)

namespace Session

/-- With its compiler in step, a session does what its engine does. -/
theorem perform_eq_engine {s : Session} (hs : s.compiler = s.engine.options.delimiters)
    (o : Operation) : s.engine.perform o = ((s.perform o).1, (s.perform o).2.engine) := by
  cases o with
  | compile source =>
    rw [Engine.perform, Engine.compile, ← hs]
    cases h : Template.compile s.compiler source with
    | error e => rw [perform_compile_of_error h]; rfl
    | ok t => rw [perform_compile_of_ok h]; rfl
  | parse source =>
    rw [Engine.perform, Engine.parse, Engine.compile, ← hs]
    cases h : Template.compile s.compiler source with
    | error e => rw [perform_parse_of_error h]; rfl
    | ok t =>
      rw [perform_parse_of_ok h, Engine.registerParsed, options_registerAll]
      rfl
  | registerHelper name helper => rfl
  | unregisterHelper name => rfl
  | registerPartial name source =>
    rw [Engine.perform, Engine.registerPartial, Engine.compile, ← hs]
    cases h : Template.compile s.compiler source with
    | error e => rw [perform_registerPartial_of_error h]; rfl
    | ok t => rw [perform_registerPartial_of_ok h]; rfl
  | registerTemplate name t => rfl
  | registerNative name f => rfl
  | unregisterPartial name => rfl
  | setDelimiters opening closing =>
    rw [Engine.perform, Engine.setDelimiters]
    cases h : Delimiters.of opening closing with
    | error e => rw [perform_setDelimiters_of_error h]
    | ok d => rw [perform_setDelimiters_of_ok h]; rfl
  | render t data extra => rw [perform_render]; rfl
  | renderNamed name data extra => rw [perform_renderNamed]; rfl

/-- A failure leaves everything as it was. -/
theorem perform_refused {s : Session} {o : Operation} {e : EngineError}
    (h : (s.perform o).1 = .error e) : (s.perform o).2 = s := by
  have hc := s.perform_changes o
  rw [h] at hc
  obtain ⟨engine, compiler⟩ := s
  generalize hs : (perform ⟨engine, compiler⟩ o).2 = s' at hc
  obtain ⟨⟨options, helpers, partials⟩, compiler'⟩ := s'
  obtain ⟨hhelpers, hpartials, hoptions, hcompiler⟩ := hc
  simp only at hhelpers hpartials hoptions hcompiler
  rw [hhelpers, hpartials, hoptions, hcompiler]
  rfl

/-- An operation on one registry leaves the other alone. -/
theorem perform_frame (s : Session) (o : Operation) :
    (o.registry? ≠ some .helpers → (s.perform o).2.engine.helpers = s.engine.helpers) ∧
      (o.registry? ≠ some .partials → (s.perform o).2.engine.partials = s.engine.partials) := by
  have hc := s.perform_changes o
  rw [hc.helpers, hc.partials]
  generalize (s.perform o).1 = result
  constructor <;> intro ho <;> cases result <;> cases o <;> first
    | rfl
    | exact absurd rfl ho

/-- What holds of a session after a history, and of the next operation. -/
structure Follows (h : History) (s : Session) : Prop where
  helpers : ∀ name, s.engine.helpers.get? name = h.helper? name
  partials : ∀ name, s.engine.partials.get? name = h.partial? name
  hasHelper : ∀ name, s.engine.hasHelper name = (h.helper? name).isSome
  hasPartial : ∀ name, s.engine.hasPartial name = (h.partial? name).isSome
  /-- In every tag a name stands for its last definition. -/
  rendersBy : s.engine.RendersBy h.helper? h.partial?
  render : ∀ t data extra,
    s.perform (.render t data extra) = ((s.engine.render t data extra).result.map .text, s)
  renderNamed : ∀ name data extra,
    s.perform (.renderNamed name data extra) =
      ((s.engine.renderNamed name data extra).result.map .text, s)
  /-- Rendering sees nothing else of the registries than the last definition of each name. -/
  renders : ∀ e : Engine, e.options = s.engine.options →
    (∀ name, e.helpers.get? name = h.helper? name) →
    (∀ name, e.partials.get? name = h.partial? name) → ∀ data extra,
      (∀ t, s.engine.render t data extra = e.render t data extra) ∧
        ∀ name, s.engine.renderNamed name data extra = e.renderNamed name data extra
  unregisterHelper : ∀ name,
    (s.perform (.unregisterHelper name)).1 = .ok (.wasThere (h.helper? name).isSome)
  unregisterPartial : ∀ name,
    (s.perform (.unregisterPartial name)).1 = .ok (.wasThere (h.partial? name).isSome)
  refused : ∀ o e, (s.perform o).1 = .error e → (s.perform o).2 = s
  frame : ∀ o, (o.registry? ≠ some .helpers → (s.perform o).2.engine.helpers = s.engine.helpers) ∧
    (o.registry? ≠ some .partials → (s.perform o).2.engine.partials = s.engine.partials)
  compiler : s.compiler = s.engine.options.delimiters
  nonempty : s.compiler.opening ≠ "" ∧ s.compiler.closing ≠ ""
  /-- The engine by itself, which keeps no compiler, does the same. -/
  engine : ∀ o, s.engine.perform o = ((s.perform o).1, (s.perform o).2.engine)

/-- After any operations each registry answers what was last written under the name, and rendering
goes by that. -/
theorem follows_history {options : Options} {opening closing : String} {start : Session}
    (hs : create options opening closing = .ok start) (os : List Operation) :
    (start.run os).2.Follows (start.history os) := by
  have hstart := Reflects.create hs
  have hrecursion : start.engine.options.recursion = options.recursion := by rw [hstart.options]
  have hr := hstart.run os
  rw [← hrecursion] at hr
  change (start.run os).2.Reflects options (start.history os) at hr
  generalize (start.run os).2 = s at hr ⊢
  generalize start.history os = h at hr ⊢
  have hcompiler : s.compiler = s.engine.options.delimiters := by
    rw [hr.compiler, hr.options]
  have hhas : ∀ name, s.engine.hasHelper name = (h.helper? name).isSome := fun name =>
    congrArg Option.isSome (hr.get?_helpers name)
  have hhasPartial : ∀ name, s.engine.hasPartial name = (h.partial? name).isSome := fun name =>
    congrArg Option.isSome (hr.get?_partials name)
  refine
    { helpers := hr.get?_helpers, partials := hr.get?_partials, hasHelper := hhas,
      hasPartial := hhasPartial, rendersBy := hr.rendersBy, render := s.perform_render,
      renderNamed := s.perform_renderNamed, renders := ?_, unregisterHelper := ?_,
      unregisterPartial := ?_, refused := fun o e => perform_refused, frame := s.perform_frame,
      compiler := hcompiler, nonempty := ⟨s.compiler.opening_ne, s.compiler.closing_ne⟩,
      engine := perform_eq_engine hcompiler }
  · intro e he hh hp data extra
    have hsame : SameAnswers e s.engine :=
      ⟨he.symm, fun name => (hr.get?_helpers name).trans (hh name).symm,
        fun name => (hr.get?_partials name).trans (hp name).symm⟩
    exact ⟨fun t => hsame.render t data extra, fun name => hsame.renderNamed name data extra⟩
  · intro name
    rw [← hhas name]
    rfl
  · intro name
    rw [← hhasPartial name]
    rfl

/-- A source that defines a partial, a helper that is registered twice, and a template that uses
both; in between a source and delimiters that are refused. -/
def mixedOperations : List Operation :=
  [.parse "\x7b\x7b#*inline \"b\"\x7d\x7dB\x7b\x7b/inline\x7d\x7da",
    .registerHelper "h" (fun _ => pure (.safe "old")),
    .registerPartial "page" "\x7b\x7bh 1\x7d\x7d,\x7b\x7b> b\x7d\x7d",
    .registerPartial "b" "\x7b\x7b#if\x7d\x7d", .setDelimiters "<" "",
    .registerHelper "h" (fun _ => pure (.safe "new")), .unregisterHelper "log"]

theorem follows_history_mixed :
    ∃ start, create {} "\x7b\x7b" "\x7d\x7d" = .ok start ∧
      (start.run mixedOperations).2.Follows (start.history mixedOperations) ∧
      (start.history mixedOperations).partials.map (·.1) = ["b", "self", "page"] ∧
      ((start.history mixedOperations).helper? "log").isNone ∧
      ((start.run mixedOperations).2.engine.renderNamed "page" .null none).result = .ok "new,B" ∧
      ((start.run mixedOperations).2.engine.renderNamed "log" .null none).result =
        .error (.unknownTemplate "log") := by
  have hs : create {} "\x7b\x7b" "\x7d\x7d" = .ok ⟨Engine.create {}, .braces⟩ := by rfl
  exact ⟨_, hs, follows_history hs _, by decide +kernel, by decide +kernel, by decide +kernel,
    by decide +kernel⟩

end Session
end TextTemplate
