import TextTemplate.Render.Node
import TextTemplate.Text.Capital

/-! An engine with the templates and helpers of a small site about things to do. -/

namespace TextTemplate.TodoList

/-- The sum of the numbers among the arguments, as a double. -/
def add : Helper := fun c =>
  let numbers := c.args.filterMap fun
    | .number n => some n.toDouble
    | _ => none
  let sum := numbers.foldl (· + ·) (-0.0)
  pure (.value (if sum.isFinite then .number (.double sum) else .null))

/-- A text in capitals, escaped and set in bold. -/
def shout : Helper := fun c =>
  let text := match c.args with
    | .string s :: _ => s
    | _ => ""
  let capitals := String.ofList (Text.capitals text.toList)
  pure (.safe ("<strong>" ++ c.escape capitals ++ "</strong>"))

def button : String :=
  "<button class=\"btn\" data-id=\"\x7b\x7bid\x7d\x7d\">\x7b\x7blabel\x7d\x7d</button>\n"

def page : String :=
  "<!doctype html>\n<html>\n<head><title>\x7b\x7btitle\x7d\x7d</title></head>\n<body>\n" ++
  "  \x7b\x7b> @partial-block\x7d\x7d\n</body>\n</html>\n"

def todos : String :=
  "\x7b\x7b#> layouts/page title=title\x7d\x7d\n" ++
  "  <h1>\x7b\x7btitle\x7d\x7d</h1>\n" ++
  "  <ul>\n" ++
  "  \x7b\x7b#each todos as |todo i|\x7d\x7d\n" ++
  "    <li class=\"\x7b\x7b#if todo.done\x7d\x7ddone" ++
  "\x7b\x7belse\x7d\x7dopen\x7b\x7b/if\x7d\x7d\">" ++
  "\x7b\x7badd i 1\x7d\x7d. \x7b\x7btodo.text\x7d\x7d " ++
  "\x7b\x7b> button id=todo.id label=\"Edit\"\x7d\x7d</li>\n" ++
  "  \x7b\x7belse\x7d\x7d\n" ++
  "    <li>Nothing to do</li>\n" ++
  "  \x7b\x7b/each\x7d\x7d\n" ++
  "  </ul>\n" ++
  "  <footer>\x7b\x7bshout footer\x7d\x7d</footer>\n" ++
  "\x7b\x7b/layouts/page\x7d\x7d\n"

def hello : String := "<p>Hello \x7b\x7bfirstname\x7d\x7d \x7b\x7blastname\x7d\x7d</p>"

def templates : Dict String :=
  [("button", button), ("layouts/page", page), ("todos", todos), ("hello_first_last", hello)]

def engine : Except EngineError Engine := do
  let e ← templates.foldlM (fun (e : Engine) (name, source) => e.registerPartial name source)
    (Engine.create {})
  pure ((e.registerHelper "add" add).registerHelper "shout" shout)

/-- Renders one of the site's templates. -/
def render (name : String) (data : Value) : Rendering :=
  match engine with
  | .ok e => e.renderNamed name data none
  | .error err => ⟨.error err, []⟩

end TextTemplate.TodoList
