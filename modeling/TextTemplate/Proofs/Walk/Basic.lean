import TextTemplate.Render.Node

/-! Walking a tree with one state that every construct changes and puts back. The nesting limit is
only asked, not counted down: whether a walk ends is left open. -/

namespace TextTemplate

/-- What happens on a walk: a list of nodes inside the one at hand, a stretch in which the pending
body is put aside for another one, or a pending body that the nesting limit keeps from being
shown. -/
inductive Event
  | list (inner : List Event)
  | aside (inner : List Event)
  | stopped

mutual

/-- Whether the limit stopped the body that is pending where the event belongs. -/
def Event.stops : Event → Bool
  | .list inner => anyStops inner
  | .aside _ => false
  | .stopped => true

def anyStops : List Event → Bool
  | [] => false
  | e :: es => e.stops || anyStops es

end

/-- The state of a walk. -/
structure Walker where
  setting : Setting
  pending : Option PendingBody
  depth : Nat
  log : List String
  events : List Event

/-- A step of a walk; one that goes too deep gives nothing. -/
abbrev Walk := StateT Walker Option

abbrev Outcome (α : Type) := Except EngineError α

/-- Leaves the innermost scope; the outermost one stays. -/
def Setting.pop (s : Setting) : Setting :=
  match s.scope.enclosing with
  | [] => s
  | f :: fs => { s with scope := ⟨f, fs⟩ }

/-- What a partial is about. -/
def Setting.contextFor (s : Setting) (i : Invocation) : Eval Value :=
  match i.params with
  | [] => pure s.scope.context
  | p :: _ => do
    let v ← p.eval s
    pure (v.getD .null)

@[simp] theorem Setting.pop_push (s : Setting) (f : Frame) : (s.push f).pop = s := rfl

theorem Setting.scope_pop (s : Setting) : s.pop.scope = s.scope.pop := by
  rw [Setting.pop, Scope.pop]
  cases s.scope.enclosing <;> rfl

namespace Walk

def change (f : Setting → Setting) : Walk Unit := modify fun w => { w with setting := f w.setting }

def eval {α : Type} (x : Setting → Eval α) : Walk (Outcome α) := fun w =>
  match x w.setting w.log with
  | .ok a log => some (.ok a, { w with log })
  | .error e log => some (.error e, { w with log })

def note (message : String) : Walk Unit := modify fun w => { w with log := w.log ++ [message] }

/-- Goes one level deeper, unless the limit is reached. -/
def descend (name : String) : Walk (Outcome Unit) := fun w =>
  let limit := w.setting.engine.options.maxDepth
  if limit ≤ w.depth then some (.error (.nestingLimit name limit), w)
  else some (.ok (), { w with depth := w.depth + 1 })

def ascend : Walk Unit := modify fun w => { w with depth := w.depth - 1 }

/-- Starts an account of its own, and gives back the one so far. -/
def record : Walk (List Event) := fun w => some (w.events, { w with events := [] })

/-- Adds the account at hand, as one event, to the one before it. -/
def close (event : List Event → Event) (before : List Event) : Walk Unit :=
  modify fun w => { w with events := before ++ [event w.events] }

section
variable {α β : Type} (w : Walker)

@[simp] theorem bind_apply (m : Walk α) (k : α → Walk β) :
    (m >>= k) w = (m w).bind fun r => k r.1 r.2 := rfl

@[simp] theorem pure_apply (a : α) : (pure a : Walk α) w = some (a, w) := rfl

@[simp] theorem map_apply (f : α → β) (m : Walk α) :
    (f <$> m) w = (m w).map fun r => (f r.1, r.2) := by
  rw [map_eq_pure_bind, bind_apply]
  cases m w <;> rfl

@[simp] theorem get_apply : (get : Walk Walker) w = some (w, w) := rfl

@[simp] theorem modify_apply (f : Walker → Walker) :
    (modify f : Walk Unit) w = some ((), f w) := rfl

@[simp] theorem change_apply (f : Setting → Setting) :
    change f w = some ((), { w with setting := f w.setting }) := rfl

@[simp] theorem note_apply (message : String) :
    note message w = some ((), { w with log := w.log ++ [message] }) := rfl

@[simp] theorem ascend_apply : ascend w = some ((), { w with depth := w.depth - 1 }) := rfl

@[simp] theorem record_apply : record w = some (w.events, { w with events := [] }) := rfl

@[simp] theorem close_apply (event : List Event → Event) (before : List Event) :
    close event before w = some ((), { w with events := before ++ [event w.events] }) := rfl

theorem descend_of_le (name : String) (h : w.setting.engine.options.maxDepth ≤ w.depth) :
    descend name w = some (.error (.nestingLimit name w.setting.engine.options.maxDepth), w) := by
  simp [descend, h]

theorem descend_of_lt (name : String) (h : w.depth < w.setting.engine.options.maxDepth) :
    descend name w = some (.ok (), { w with depth := w.depth + 1 }) := by
  simp [descend, Nat.not_le.2 h]

end

/-- Files the account of a walk as one event. -/
def filed {α : Type} (event : List Event → Event) (m : Walk α) : Walk α := do
  let before ← record
  let r ← m
  close event before
  pure r

section
-- walks the lists inside a block or a partial, which stand one level deeper
variable (inner : List Node → Walk (Outcome String))

def inFrame (f : Frame) (body : List Node) : Walk (Outcome String) := do
  change (·.push f)
  let r ← inner body
  change (·.pop)
  pure r

def turns (aliases : List String) (container : Value) (length index : Nat) (body : List Node) :
    List (Value × Value) → Walk (Outcome String)
  | [] => pure (.ok "")
  | (key, value) :: rest => do
    match ← inFrame inner { Frame.binding value aliases [value, key] with
      iteration := some { index, key, length, container } } body with
    | .error e => pure (.error e)
    | .ok out =>
      let w ← get
      match ← turns aliases container length (index + 1) body rest with
      | .error e => pure (.error e)
      | .ok outs => pure (.ok (w.setting.stepped index key value out ++ outs))

/-- The body of a branch that is taken, with the scopes that its kind opens. -/
def chosen (kind : BlockKind) (aliases : List String) (subject : Option Value)
    (body : List Node) : Walk (Outcome String) :=
  match kind, subject with
  | .ifTrue, _ => inner body
  | .ifFalse, _ => inner body
  | _, none => pure (.ok "")
  | .each, some v => turns inner aliases v v.items.length 0 body v.items
  | kind, some v =>
    if kind = .plain ∧ v.isArray then turns inner aliases v v.items.length 0 body v.items
    else inFrame inner (.binding v aliases [v]) body

/-- A branch that no helper decides on. -/
def ordinary (i : Invocation) (negated : Bool) (kind : BlockKind) (body : List Node) :
    Walk (Outcome (Option String)) := do
  match ← eval (i.subject ·) with
  | .error e => pure (.error e)
  | .ok subject =>
    match ← eval (·.holds kind i subject) with
    | .error e => pure (.error e)
    | .ok holds =>
      if negated then
        if holds then pure (.ok none)
        else
          match ← inner body with
          | .error e => pure (.error e)
          | .ok out => pure (.ok (some out))
      else if holds then
        match ← chosen inner kind i.aliases subject body with
        | .error e => pure (.error e)
        | .ok out => pure (.ok (some out))
      else pure (.ok none)

/-- A part of a block; `inverse` walks what follows the body. -/
def partHere (p : Part) (body : List Node) (inverse : Walk (Outcome String)) :
    Walk (Outcome String) :=
  match p with
  | .body => inner body
  | .inverse => inverse

def part (p : Part) (context : Option Value) (body : List Node)
    (inverse : Walk (Outcome String)) : Walk (Outcome String) :=
  match context with
  | none => partHere inner p body inverse
  | some context => do
    change (·.push (.of context))
    let r ← partHere inner p body inverse
    change (·.pop)
    pure r

/-- A helper at work on its block. It hears of every failure of a part and may go on. -/
def run (negated : Bool) (body : List Node) (inverse : Walk (Outcome String)) :
    Run HelperOutput → Walk (Outcome HelperOutput)
  | .done r => pure r
  | .render p context next => do
    let r ← part inner (if negated then p.other else p) context body inverse
    run negated body inverse (next r)
  | .note message next => do
    note message
    run negated body inverse next

def helper (name : String) (params : List Reference) (hash : List (String × Reference))
    (negated : Bool) (body : List Node) (inverse : Walk (Outcome String)) :
    Walk (Outcome String) := do
  let w ← get
  match w.setting.engine.helpers.get? name with
  | none => pure (.ok "")
  | some h =>
    match ← eval (evalParams · params) with
    | .error e => pure (.error e)
    | .ok args =>
      match ← eval (evalHash · hash []) with
      | .error e => pure (.error e)
      | .ok hash =>
        let w ← get
        match ← run inner negated body inverse (h (w.setting.call name args hash true)) with
        | .error e => pure (.error e)
        | .ok out =>
          let w ← get
          pure (.ok (w.setting.emit false out))

/-- One branch of a block, or none when its condition fails. -/
def branch (i : Invocation) (negated : Bool) (body : List Node)
    (inverse : Walk (Outcome String)) : Walk (Outcome (Option String)) := do
  let w ← get
  match i.helper, BlockKind.of i, w.setting.bareHelper? i with
  | some name, .helper, _ => do
    match ← helper inner name i.params i.hash negated body inverse with
    | .error e => pure (.error e)
    | .ok out => pure (.ok (some out))
  | _, .plain, some name => do
    match ← helper inner name [] [] negated body inverse with
    | .error e => pure (.error e)
    | .ok out => pure (.ok (some out))
  | _, kind, _ => ordinary inner i negated kind body

/-- The first of the remaining branches whose condition holds. -/
def alternates : List Alternate → Walk (Outcome String)
  | [] => pure (.ok "")
  | ⟨none, body⟩ :: _ => inner body
  | ⟨some condition, body⟩ :: rest => do
    match ← branch inner condition false body (alternates rest) with
    | .error e => pure (.error e)
    | .ok (some out) => pure (.ok out)
    | .ok none => alternates rest

def block (b : Block) : Walk (Outcome String) := do
  match ← branch inner b.invocation b.negated b.body (alternates inner b.alternates) with
  | .error e => pure (.error e)
  | .ok (some out) => pure (.ok out)
  | .ok none => alternates inner b.alternates

/-- Takes the pending body, shows it where it was written, and hands it back. -/
def pendingBody (p : PendingBody) : Walk (Outcome String) := do
  modify fun w => { w with pending := none }
  match ← descend partialBlockName with
  | .error e =>
    modify fun w => { w with events := w.events ++ [.stopped] }
    pure (.error e)
  | .ok _ =>
    let w ← get
    let before ← record
    change ({ · with scope := p.scope, defined := p.defined })
    let r ← inner p.nodes
    close .aside before
    modify fun w' => { w' with
      setting := { w'.setting with scope := w.setting.scope, defined := w.setting.defined }
      pending := some ⟨p.nodes, w'.setting.scope, w'.setting.defined⟩ }
    ascend
    pure r

/-- A limited partial gets a scope of its own, and the one before comes back whole; any other one
gets a frame on top. -/
def framed (f : Frame) (t : Template) : Walk (Outcome String) := do
  let w ← get
  if w.setting.engine.options.limitPartialScope then
    change ({ · with scope := ⟨f, []⟩ })
    change fun s => { s with defined := s.defined.insertAll t.partials }
    let r ← inner t.nodes
    change ({ · with scope := w.setting.scope })
    pure r
  else
    change (·.push f)
    change fun s => { s with defined := s.defined.insertAll t.partials }
    let r ← inner t.nodes
    change (·.pop)
    pure r

def entered (name : String) (f : Frame) (t : Template) : Walk (Outcome String) := do
  match ← descend name with
  | .error e => pure (.error e)
  | .ok _ =>
    let r ← framed inner f t
    ascend
    pure r

/-- The nodes of a partial, with the body of its tag as the pending one meanwhile. -/
def included (name : String) (f : Frame) (body : Option (List Node)) (t : Template) :
    Walk (Outcome String) := do
  let w ← get
  let before ← record
  modify fun w => { w with pending := body.map fun ns => ⟨ns, w.setting.scope, w.setting.defined⟩ }
  let r ← entered inner name f t
  close .aside before
  modify fun w' => { w' with
    setting := { w'.setting with defined := w.setting.defined }, pending := w.pending }
  pure r

/-- A partial that is there. -/
def found (name : String) (i : Invocation) (body : Option (List Node)) (target : Registered) :
    Walk (Outcome String) := do
  match ← eval (·.contextFor i) with
  | .error e => pure (.error e)
  | .ok context =>
    match ← eval (evalHash · i.hash []) with
    | .error e => pure (.error e)
    | .ok hash =>
      match target with
      | .native f => pure (f context)
      | .template t => included inner name ⟨context, hash, none⟩ body t

mutual

def node : Node → Walk (Outcome String)
  | .text s => pure (.ok s)
  | .value i escaped => do
    match ← eval (i.eval ·) with
    | .error e => pure (.error e)
    | .ok out =>
      let w ← get
      pure (.ok (w.setting.emit escaped out))
  | .block b => do
    match ← descend b.name with
    | .error e => pure (.error e)
    | .ok _ =>
      let r ← block inner b
      ascend
      pure r
  | .partialTag ⟨name, i, body⟩ => do
    -- the body stays on the level of its tag
    let fallback := match body with
      | some ns => filed .list (nodes ns)
      | none => pure (.ok "")
    match ← eval (name.eval ·) with
    | .error e => pure (.error e)
    | .ok name =>
      let w ← get
      if name = partialBlockName then
        match w.pending with
        | some p => pendingBody inner p
        | none => fallback
      else
        match w.setting.partial? name with
        | some target => found inner name i body target
        | none => fallback

def nodes : List Node → Walk (Outcome String)
  | [] => pure (.ok "")
  | n :: ns => do
    match ← node n with
    | .error e => pure (.error e)
    | .ok out =>
      let w ← get
      match ← nodes ns with
      | .error e => pure (.error e)
      | .ok outs => pure (.ok (w.setting.hooked n out ++ outs))

end

/-- What a tag shows whose partial is missing. -/
def fallback (body : Option (List Node)) : Walk (Outcome String) :=
  match body with
  | some ns => filed .list (nodes inner ns)
  | none => pure (.ok "")

end

/-- Walks lists of nodes inside one another, so many deep; without a result if they go deeper. -/
def upTo : Nat → List Node → Walk (Outcome String)
  | 0, _ => fun _ => none
  | levels + 1, ns => filed .list (nodes (upTo levels) ns)

end Walk

/-- A walker at the root of a template. -/
def Walker.start (e : Engine) (t : Template) (data : Value) (extra : Option Value) : Walker where
  setting := {
    engine := e, extra, scope := .ofContext data, defined := Dict.insertAll [] t.partials }
  pending := none
  depth := 0
  log := []
  events := []

/-- Walks a whole template. -/
def Walk.template (levels : Nat) (e : Engine) (t : Template) (data : Value)
    (extra : Option Value) : Option Rendering := do
  let (r, w) ← Walk.upTo levels t.nodes (.start e t data extra)
  pure ⟨r, w.log⟩

end TextTemplate
