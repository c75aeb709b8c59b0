import Mathlib.Data.List.Induction
import Mathlib.Logic.Function.Iterate
import TextTemplate.Proofs.Resolution

/-! Frames that are opened on a scope and closed again: what paths mean inside them, and what is
left behind. -/

namespace TextTemplate

/-- A frame that binds no name and is no turn of a loop. -/
def Frame.Plain (f : Frame) : Prop := f.bindings = [] ∧ f.iteration = none

namespace Scope

/-- Opens one frame after the other; the last one is the innermost. -/
def pushAll (s : Scope) (fs : List Frame) : Scope := fs.foldl push s

/-- What happens to a scope where a block begins or ends. -/
inductive Move
  | push (f : Frame)
  | pop

def move (s : Scope) : Move → Scope
  | .push f => s.push f
  | .pop => s.pop

def moveAll (s : Scope) (moves : List Move) : Scope := moves.foldl move s

section
variable {s : Scope} {extra : Option Value} {p : Path} {k : Source} {f : Frame} {fs : List Frame}
  {depth : Nat} {first name : String} {rest : List String}

theorem frames_pushAll (s : Scope) (fs : List Frame) :
    (s.pushAll fs).frames = fs.reverse ++ s.frames := by
  induction fs generalizing s with
  | nil => rfl
  | cons f fs ih =>
    calc (s.pushAll (f :: fs)).frames = fs.reverse ++ (s.push f).frames := ih (s.push f)
      _ = (f :: fs).reverse ++ s.frames := by rw [List.reverse_cons, List.append_assoc]; rfl

/-! Beyond the new frames -/

theorem drop_frames_pushAll (s : Scope) (fs : List Frame) (depth : Nat) :
    (s.pushAll fs).frames.drop (depth + fs.length) = s.frames.drop depth := by
  rw [frames_pushAll, Nat.add_comm, ← List.length_reverse, List.drop_length_add_append]

theorem leave?_pushAll (s : Scope) (fs : List Frame) (depth : Nat) :
    (s.pushAll fs).leave? (depth + fs.length) = s.leave? depth := by
  rw [leave?, leave?, drop_frames_pushAll]

/-! The outermost frame -/

theorem exists_frames_eq (s : Scope) : ∃ opened, s.frames = opened ++ [s.root] :=
  List.getLast?_eq_some_iff.1 getLast?_frames

theorem root_of_frames {opened : List Frame} (h : s.frames = opened ++ [f]) : s.root = f := by
  have hlast : s.frames.getLast? = some f := by rw [h, List.getLast?_concat]
  rw [getLast?_frames] at hlast
  exact Option.some.inj hlast

theorem root_push (s : Scope) (f : Frame) : (s.push f).root = s.root := by
  obtain ⟨opened, h⟩ := s.exists_frames_eq
  have hpush : (s.push f).frames = (f :: opened) ++ [s.root] := by
    rw [List.cons_append, ← h]
    rfl
  exact root_of_frames hpush

@[simp] theorem pop_push (s : Scope) (f : Frame) : (s.push f).pop = s := rfl

theorem root_pop (s : Scope) : s.pop.root = s.root := by
  obtain ⟨current, enclosing⟩ := s
  cases enclosing with
  | nil => rfl
  | cons f fs => exact (root_push ⟨f, fs⟩ current).symm

theorem root_move (s : Scope) (m : Move) : (s.move m).root = s.root := by
  cases m with
  | push f => exact root_push s f
  | pop => exact root_pop s

theorem root_moveAll (s : Scope) (moves : List Move) : (s.moveAll moves).root = s.root := by
  induction moves generalizing s with
  | nil => rfl
  | cons m moves ih => exact (ih (s.move m)).trans (root_move s m)

theorem root_pushAll (s : Scope) (fs : List Frame) : (s.pushAll fs).root = s.root := by
  have hmoves : s.pushAll fs = s.moveAll (fs.map .push) := by
    rw [moveAll, List.foldl_map]
    rfl
  rw [hmoves, root_moveAll]

theorem pop_iterate_pushAll (s : Scope) (fs : List Frame) : pop^[fs.length] (s.pushAll fs) = s := by
  induction fs using List.reverseRecOn with
  | nil => rfl
  | append_singleton fs f ih =>
    have hlast : s.pushAll (fs ++ [f]) = (s.pushAll fs).push f := by
      rw [pushAll, List.foldl_append]
      rfl
    rw [List.length_append, List.length_singleton, hlast, Function.iterate_succ_apply, pop_push, ih]

/-! Paths that leave the new frames -/

theorem special?_pushAll (s : Scope) (fs : List Frame) (depth : Nat) (name : String) :
    (s.pushAll fs).special? (depth + fs.length) name = s.special? depth name := by
  rw [special?, special?, root_pushAll, leave?_pushAll]

theorem resolve?_pushAll (s : Scope) (extra : Option Value) (fs : List Frame) (p : Path) :
    (s.pushAll fs).resolve? extra { p with depth := p.depth + fs.length } = s.resolve? extra p := by
  simp only [resolve?, leave?_pushAll, special?_pushAll]

/-! Names that plain frames let through -/

section
variable (hplain : ∀ f ∈ fs, f.Plain)
include hplain

theorem findSome?_pushAll {α : Type} {look : Frame → Option α}
    (hlook : ∀ f : Frame, f.Plain → look f = none) (depth : Nat) :
    ((s.pushAll fs).frames.drop depth).findSome? look =
      (s.frames.drop (depth - fs.length)).findSome? look := by
  have hopened : (fs.reverse.drop depth).findSome? look = none := by
    rw [List.findSome?_eq_none_iff]
    intro f hf
    exact hlook f (hplain f (List.mem_reverse.1 (List.mem_of_mem_drop hf)))
  rw [frames_pushAll, List.drop_append, List.findSome?_append, hopened, Option.none_or,
    List.length_reverse]

theorem special?_pushAll_of_plain (depth : Nat) (name : String) :
    (s.pushAll fs).special? depth name = s.special? (depth - fs.length) name := by
  by_cases hn : name = "root"
  · rw [special?, special?, if_pos hn, if_pos hn, root_pushAll]
  · rw [special?_of_ne_root hn, special?_of_ne_root hn, findSome?_pushAll hplain fun _ h => h.2]

theorem resolve?_pushAll_special (hp : p.segments = ("@" ++ name) :: rest) :
    (s.pushAll fs).resolve? extra p =
      s.resolve? extra { p with depth := p.depth - fs.length } := by
  have hlen : (s.pushAll fs).frames.length = fs.length + s.frames.length := by
    rw [frames_pushAll, List.length_append, List.length_reverse]
  have hpos : 0 < s.frames.length := Nat.succ_pos _
  by_cases hlt : p.depth < fs.length + s.frames.length
  · have hin : p.depth < (s.pushAll fs).frames.length := by omega
    have hin' : p.depth - fs.length < s.frames.length := by omega
    rw [resolve?_special (List.drop_eq_getElem_cons hin) hp,
      resolve?_special (p := { p with depth := p.depth - fs.length })
        (List.drop_eq_getElem_cons hin') hp, special?_pushAll_of_plain hplain]
  · have hout : (s.pushAll fs).frames.length ≤ p.depth := by omega
    have hout' : s.frames.length ≤ p.depth - fs.length := by omega
    rw [resolve?_eq_none_of_length_le hout, resolve?_eq_none_of_length_le hout']

/-- A plain frame counts as a level, and else is not there, for a path whose first name has an
owner outside it. -/
theorem resolve?_pushAll_of_owns (h : s.Owns { p with depth := p.depth - fs.length } k) :
    (s.pushAll fs).resolve? extra p =
      s.resolve? extra { p with depth := p.depth - fs.length } := by
  cases h with
  | special hp => exact resolve?_pushAll_special hplain hp
  | @binding first rest bound hs hp hn hb =>
    have hb := nearest_iff.1 hb
    have hopened : ((s.pushAll fs).frames.drop p.depth).findSome? (·.bindings.get? first) =
        some bound := by
      rw [findSome?_pushAll hplain, hb]
      intro f hf
      rw [hf.1, Dict.get?_nil]
    rw [resolve?_bound (p := p) hn hp hs hopened,
      resolve?_bound (p := { p with depth := p.depth - fs.length }) hn hp hs hb]

end
end

/-- What is opened and closed leaves no trace. A path that goes out of the new frames means what it
meant before. If the frames are plain, so does a path without steps out whose first name has an
owner; one with steps out takes the first ones through the new frames. Closing the frames gives the
scope back, and whatever is opened and closed, the outermost frame stays at the bottom. -/
theorem pushes_and_pops (s : Scope) (extra : Option Value) (fs : List Frame) (p : Path) (k : Source)
    (moves : List Move) :
    (s.pushAll fs).resolve? extra { p with depth := p.depth + fs.length } = s.resolve? extra p ∧
    ((∀ f ∈ fs, f.Plain) → p.depth = 0 → s.Owns p k →
      (s.pushAll fs).resolve? extra p = s.resolve? extra p) ∧
    ((∀ f ∈ fs, f.Plain) → s.Owns { p with depth := p.depth - fs.length } k →
      (s.pushAll fs).resolve? extra p =
        s.resolve? extra { p with depth := p.depth - fs.length }) ∧
    pop^[fs.length] (s.pushAll fs) = s ∧
    ∃ opened, (s.moveAll moves).frames = opened ++ [s.root] := by
  refine ⟨resolve?_pushAll s extra fs p, ?_, resolve?_pushAll_of_owns, pop_iterate_pushAll s fs, ?_⟩
  · intro hplain hd howns
    have hp : { p with depth := p.depth - fs.length } = p := by
      rw [hd, Nat.zero_sub, ← hd]
    have howns' : s.Owns { p with depth := p.depth - fs.length } k := hp.symm ▸ howns
    rw [resolve?_pushAll_of_owns hplain howns', hp]
  · rw [← root_moveAll s moves]
    exact exists_frames_eq _

/-- A loop's position and a bound name, seen from two plain frames further in. -/
theorem pushes_and_pops_in_loop :
    let i : Iteration := ⟨2, .number (.int 2), 3, .null⟩
    let s : Scope := ⟨⟨.null, [("x", .bool true)], some i⟩, [.of .null]⟩
    let fs : List Frame := [.of (.object [("x", .null)]), .of .null]
    let index : Path := ⟨["@index"], 0, true⟩
    let x : Path := ⟨["x"], 1, false⟩
    (∀ f ∈ fs, f.Plain) ∧
    (s.Owns index .special ∧
      (s.pushAll fs).resolve? none index = some (.number (.int 2))) ∧
    (s.Owns { x with depth := x.depth - fs.length } .binding ∧
      (s.pushAll fs).resolve? none x = some (.bool true)) := by
  intro i s fs index x
  have hplain : ∀ f ∈ fs, f.Plain := by
    intro f hf
    simp only [fs, List.mem_cons, List.not_mem_nil, or_false] at hf
    obtain rfl | rfl := hf <;> exact ⟨rfl, rfl⟩
  have hname : index.segments = ("@" ++ "index") :: [] := rfl
  have hindex : s.Owns index .special := .special hname
  have hx : s.Owns { x with depth := x.depth - fs.length } .binding := by
    have hn : ∀ name, "x" ≠ "@" ++ name := by
      intro name he
      cases specialName?_eq_some_iff.2 he
    exact .binding rfl rfl hn (nearest_iff.2 rfl)
  refine ⟨hplain, ⟨hindex, ?_⟩, hx, ?_⟩
  · exact (pushes_and_pops s none fs index .special []).2.1 hplain rfl hindex
  · exact (pushes_and_pops s none fs x .binding []).2.2.1 hplain hx

/-- A bound name behind a step out: the plain frame takes the step, and the nearer of two bindings
comes into sight. -/
theorem bound_name_comes_nearer :
    let s : Scope := ⟨⟨.number (.int 2), [("x", .number (.int 2))], none⟩,
      [⟨.number (.int 1), [("x", .number (.int 1))], none⟩]⟩
    let p : Path := ⟨["x"], 1, false⟩
    let f : Frame := .of (.number (.int 3))
    f.Plain ∧ p.strict = false ∧ s.binding? "x" = some (.number (.int 2)) ∧
      s.resolve? none p = some (.number (.int 1)) ∧
      (s.pushAll [f]).resolve? none p = some (.number (.int 2)) :=
  ⟨⟨rfl, rfl⟩, rfl, rfl, rfl, rfl⟩

end Scope
end TextTemplate
