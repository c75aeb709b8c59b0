import TextTemplate.Render.Node

/-! An engine at work: the operations asked of it, and what each does, step by step. -/

namespace TextTemplate

/-- What can be asked of an engine. -/
inductive Operation
  | compile (source : String)
  | parse (source : String)
  | registerHelper (name : String) (helper : Helper)
  | unregisterHelper (name : String)
  | registerPartial (name source : String)
  | registerTemplate (name : String) (t : Template)
  | registerNative (name : String) (f : Value → Except EngineError String)
  | unregisterPartial (name : String)
  | setDelimiters (opening closing : String)
  | render (t : Template) (data : Value) (extra : Option Value)
  | renderNamed (name : String) (data : Value) (extra : Option Value)

/-- What an operation gives back when it succeeds. -/
inductive Answer
  | done
  | template (t : Template)
  | wasThere (found : Bool)
  | text (s : String)

/-- An engine with its compiler. The delimiters that the compiler was built for stand a second time
among the options. -/
structure Session where
  engine : Engine
  compiler : Delimiters

/-- The engine with other delimiters among its options. -/
def Engine.withDelimiters (e : Engine) (delimiters : Delimiters) : Engine :=
  { e with options := { e.options with delimiters } }

/-- The engine with templates registered one after the other. -/
def Engine.registerAll (e : Engine) (ps : List (String × Template)) : Engine :=
  ps.foldl (fun e (name, p) => e.registerTemplate name p) e

/-- The engine once a template is registered with the partials that it defines. -/
def Engine.registerParsed (e : Engine) (t : Template) : Engine :=
  (e.registerAll t.partials).registerTemplate (e.registerAll t.partials).options.recursion t

/-- A failure leaves the session as it is at that point. -/
abbrev Working := EStateM EngineError Session

namespace Working
variable {α : Type}

def ofExcept : Except EngineError α → Working α
  | .ok a => pure a
  | .error e => throw e

def change (f : Engine → Engine) : Working Unit := modify fun s => { s with engine := f s.engine }

/-- What an engine says of itself. -/
def ask (f : Engine → α) : Working α := do
  let s ← get
  pure (f s.engine)

def compile (source : String) : Working Template := do
  let s ← get
  ofExcept ((Template.compile s.compiler source).mapError .parse)

def registerAll : List (String × Template) → Working Unit
  | [] => pure ()
  | (name, t) :: rest => do
    change (·.registerTemplate name t)
    registerAll rest

/-- First the partials that the source defines, then the template itself. -/
def parse (source : String) : Working Template := do
  let t ← compile source
  registerAll t.partials
  change fun e => e.registerTemplate e.options.recursion t
  pure t

def registerPartial (name source : String) : Working Unit := do
  let t ← compile source
  change (·.registerTemplate name t)

/-- The compiler is built before anything is kept. -/
def setDelimiters (opening closing : String) : Working Unit := do
  let delimiters ← ofExcept
    ((Delimiters.of opening closing).mapError fun _ => .invalidDelimiters opening closing)
  modify fun s => { s with compiler := delimiters }
  change (·.withDelimiters delimiters)

def perform : Operation → Working Answer
  | .compile source => .template <$> compile source
  | .parse source => .template <$> parse source
  | .registerHelper name helper => do
    change (·.registerHelper name helper)
    pure .done
  | .unregisterHelper name => do
    let found ← ask fun e => (e.unregisterHelper name).1
    change fun e => (e.unregisterHelper name).2
    pure (.wasThere found)
  | .registerPartial name source => do
    registerPartial name source
    pure .done
  | .registerTemplate name t => do
    change (·.registerTemplate name t)
    pure .done
  | .registerNative name f => do
    change (·.registerNative name f)
    pure .done
  | .unregisterPartial name => do
    let found ← ask fun e => (e.unregisterPartial name).1
    change fun e => (e.unregisterPartial name).2
    pure (.wasThere found)
  | .setDelimiters opening closing => do
    setDelimiters opening closing
    pure .done
  | .render t data extra => do
    let r ← ask (·.render t data extra)
    .text <$> ofExcept r.result
  | .renderNamed name data extra => do
    let r ← ask (·.renderNamed name data extra)
    .text <$> ofExcept r.result

/-! What each of these does to a session -/

section
variable {β : Type} {s : Session} {source opening closing name : String}

theorem bind_apply (x : Working α) (f : α → Working β) (s : Session) :
    (x >>= f) s = match x s with
      | .ok a s => f a s
      | .error e s => .error e s := by
  simp only [bind, EStateM.bind]
  cases x s <;> rfl

theorem map_of_ok {f : α → β} {x : Working α} {s' : Session} {a : α} (h : x s = .ok a s') :
    (f <$> x) s = .ok (f a) s' := by
  simp only [Functor.map, EStateM.map, h]

theorem map_of_error {f : α → β} {x : Working α} {s' : Session} {e : EngineError}
    (h : x s = .error e s') : (f <$> x) s = .error e s' := by
  simp only [Functor.map, EStateM.map, h]

theorem change_apply (f : Engine → Engine) (s : Session) :
    change f s = .ok () { s with engine := f s.engine } :=
  rfl

theorem ask_apply (f : Engine → α) (s : Session) : ask f s = .ok (f s.engine) s := rfl

theorem compile_apply (source : String) (s : Session) :
    compile source s = ofExcept ((Template.compile s.compiler source).mapError .parse) s :=
  rfl

theorem compile_of_ok {t : Template} (h : Template.compile s.compiler source = .ok t) :
    compile source s = .ok t s := by
  rw [compile_apply, h]
  rfl

theorem compile_of_error {e : ParseError} (h : Template.compile s.compiler source = .error e) :
    compile source s = .error (.parse e) s := by
  rw [compile_apply, h]
  rfl

theorem registerAll_apply (ps : List (String × Template)) (s : Session) :
    registerAll ps s = .ok () { s with engine := s.engine.registerAll ps } := by
  induction ps generalizing s with
  | nil => rfl
  | cons p ps ih =>
    obtain ⟨name, t⟩ := p
    rw [registerAll, bind_apply, change_apply]
    exact ih _

theorem parse_of_ok {t : Template} (h : Template.compile s.compiler source = .ok t) :
    parse source s = .ok t { s with engine := s.engine.registerParsed t } := by
  simp only [parse, bind_apply, compile_of_ok h, registerAll_apply, change_apply]
  rfl

theorem parse_of_error {e : ParseError} (h : Template.compile s.compiler source = .error e) :
    parse source s = .error (.parse e) s := by
  simp only [parse, bind_apply, compile_of_error h]

theorem registerPartial_of_ok {t : Template} (h : Template.compile s.compiler source = .ok t) :
    registerPartial name source s =
      .ok () { s with engine := s.engine.registerTemplate name t } := by
  simp only [registerPartial, bind_apply, compile_of_ok h, change_apply]

theorem registerPartial_of_error {e : ParseError}
    (h : Template.compile s.compiler source = .error e) :
    registerPartial name source s = .error (.parse e) s := by
  simp only [registerPartial, bind_apply, compile_of_error h]

theorem setDelimiters_of_ok {d : Delimiters} (h : Delimiters.of opening closing = .ok d) :
    setDelimiters opening closing s = .ok () ⟨s.engine.withDelimiters d, d⟩ := by
  rw [setDelimiters, bind_apply, h]
  rfl

theorem setDelimiters_of_error {e : ParseError} (h : Delimiters.of opening closing = .error e) :
    setDelimiters opening closing s = .error (.invalidDelimiters opening closing) s := by
  rw [setDelimiters, bind_apply, h]
  rfl

end

end Working

/-- An operation that was asked for, and what came back. -/
structure Transaction where
  operation : Operation
  result : Except EngineError Answer

namespace Session

/-- A session begins with the built-in helpers, no partial, and a compiler for its delimiters. -/
def create (options : Options) (opening closing : String) : Except EngineError Session :=
  match Delimiters.of opening closing with
  | .ok delimiters => .ok ⟨Engine.create { options with delimiters }, delimiters⟩
  | .error _ => .error (.invalidDelimiters opening closing)

def perform (s : Session) (o : Operation) : Except EngineError Answer × Session :=
  match Working.perform o s with
  | .ok a s => (.ok a, s)
  | .error e s => (.error e, s)

/-! What each operation comes to -/

section
variable {s s' : Session} {o : Operation} {a : Answer} {e : EngineError} {source name : String}

theorem perform_of_ok (h : Working.perform o s = .ok a s') : s.perform o = (.ok a, s') := by
  rw [perform, h]

theorem perform_of_error (h : Working.perform o s = .error e s') :
    s.perform o = (.error e, s') := by
  rw [perform, h]

theorem perform_compile_of_ok {t : Template} (h : Template.compile s.compiler source = .ok t) :
    s.perform (.compile source) = (.ok (.template t), s) :=
  perform_of_ok (Working.map_of_ok (Working.compile_of_ok h))

theorem perform_compile_of_error {e : ParseError}
    (h : Template.compile s.compiler source = .error e) :
    s.perform (.compile source) = (.error (.parse e), s) :=
  perform_of_error (Working.map_of_error (Working.compile_of_error h))

theorem perform_parse_of_ok {t : Template} (h : Template.compile s.compiler source = .ok t) :
    s.perform (.parse source) =
      (.ok (.template t), { s with engine := s.engine.registerParsed t }) :=
  perform_of_ok (Working.map_of_ok (Working.parse_of_ok h))

theorem perform_parse_of_error {e : ParseError}
    (h : Template.compile s.compiler source = .error e) :
    s.perform (.parse source) = (.error (.parse e), s) :=
  perform_of_error (Working.map_of_error (Working.parse_of_error h))

theorem perform_registerPartial_of_ok {t : Template}
    (h : Template.compile s.compiler source = .ok t) :
    s.perform (.registerPartial name source) =
      (.ok .done, { s with engine := s.engine.registerTemplate name t }) := by
  apply perform_of_ok
  simp only [Working.perform, Working.bind_apply, Working.registerPartial_of_ok h]
  rfl

theorem perform_registerPartial_of_error {e : ParseError}
    (h : Template.compile s.compiler source = .error e) :
    s.perform (.registerPartial name source) = (.error (.parse e), s) := by
  apply perform_of_error
  simp only [Working.perform, Working.bind_apply, Working.registerPartial_of_error h]

theorem perform_setDelimiters_of_ok {opening closing : String} {d : Delimiters}
    (h : Delimiters.of opening closing = .ok d) :
    s.perform (.setDelimiters opening closing) = (.ok .done, ⟨s.engine.withDelimiters d, d⟩) := by
  apply perform_of_ok
  simp only [Working.perform, Working.bind_apply, Working.setDelimiters_of_ok h]
  rfl

theorem perform_setDelimiters_of_error {opening closing : String} {e : ParseError}
    (h : Delimiters.of opening closing = .error e) :
    s.perform (.setDelimiters opening closing) =
      (.error (.invalidDelimiters opening closing), s) := by
  apply perform_of_error
  simp only [Working.perform, Working.bind_apply, Working.setDelimiters_of_error h]

theorem perform_render (t : Template) (data : Value) (extra : Option Value) :
    s.perform (.render t data extra) = ((s.engine.render t data extra).result.map .text, s) := by
  simp only [perform, Working.perform, Working.bind_apply, Working.ask_apply]
  cases (s.engine.render t data extra).result <;> rfl

theorem perform_renderNamed (name : String) (data : Value) (extra : Option Value) :
    s.perform (.renderNamed name data extra) =
      ((s.engine.renderNamed name data extra).result.map .text, s) := by
  simp only [perform, Working.perform, Working.bind_apply, Working.ask_apply]
  cases (s.engine.renderNamed name data extra).result <;> rfl

end

/-- The operations one after the other, whether they succeed or fail. -/
def run (s : Session) : List Operation → List Transaction × Session
  | [] => ([], s)
  | o :: os =>
    let (result, next) := s.perform o
    let (events, last) := next.run os
    (⟨o, result⟩ :: events, last)

end Session
end TextTemplate
