import TextTemplate.Proofs.Arguments.Order
import TextTemplate.Proofs.Evaluation

/-! A key that is written more than once: a search for it comes to the first value, the table that a
helper or a partial gets holds the last. -/

namespace TextTemplate

namespace Dict
variable {α β : Type} {d : Dict α}

theorem forall₂_under {R : α → β → Prop} {e : Dict β}
    (h : List.Forall₂ (fun x y => x.1 = y.1 ∧ R x.2 y.2) d e) (k : String) :
    List.Forall₂ R (under d k) (under e k) := by
  induction h with
  | nil => exact .nil
  | @cons x y d e hxy _ ih =>
    obtain ⟨l, a⟩ := x
    obtain ⟨_, b⟩ := y
    obtain ⟨rfl, hab⟩ := hxy
    rw [under_cons, under_cons]
    by_cases hl : l = k
    · rw [if_pos hl, if_pos hl]
      exact .cons hab ih
    · rw [if_neg hl, if_neg hl]
      exact ih

end Dict

/-- The reference evaluates to this value, whatever the log holds; no value counts as `null`. -/
def Reference.Gives (s : Setting) (r : Reference) (v : Value) : Prop :=
  ∃ o notes, o.getD .null = v ∧ ∀ log, r.eval s log = .ok o (log ++ notes)

/-- What the option that a search for the key selects comes to. -/
def Invocation.Finds (s : Setting) (i : Invocation) (key : String) (o : Option Value) : Prop :=
  match i.hashValue? key with
  | none => o = none
  | some r => ∃ v, o = some v ∧ r.Gives s v

section
variable {s : Setting} {i : Invocation} {r : Reference} {v w : Value} {o : Option Value}
  {log log' : List String} {key : String} {d d' : Dict Value} {hash : List (String × Reference)}
  {vs : List Value}

namespace Reference

theorem gives_of_eval (h : r.eval s log = .ok o log') : r.Gives s (o.getD .null) := by
  obtain ⟨outcome, notes, hr⟩ := (Eval.appends s.engine).reference r
  rw [hr] at h
  cases outcome with
  | error e => cases h
  | ok o' =>
    cases h
    exact ⟨_, notes, rfl, hr⟩

theorem Gives.unique (hv : r.Gives s v) (hw : r.Gives s w) : v = w := by
  obtain ⟨o, notes, rfl, ho⟩ := hv
  obtain ⟨o', notes', rfl, ho'⟩ := hw
  have he := (ho []).symm.trans (ho' [])
  cases he
  rfl

end Reference

/-- Where all hash arguments evaluate, the table is made of their values in order. -/
theorem exists_of_evalHash (h : evalHash s hash d log = .ok d' log') :
    ∃ new, List.Forall₂ (fun e n => e.1 = n.1 ∧ e.2.Gives s n.2) hash new ∧ d' = d.insertAll new := by
  induction hash generalizing d log with
  | nil =>
    rw [evalHash] at h
    cases h
    exact ⟨[], .nil, rfl⟩
  | cons e hash ih =>
    obtain ⟨key, r⟩ := e
    simp only [evalHash, bind, EStateM.bind] at h
    split at h
    · rename_i o _ hr
      obtain ⟨new, hnew, rfl⟩ := ih h
      exact ⟨(key, o.getD .null) :: new, .cons ⟨rfl, Reference.gives_of_eval hr⟩ hnew, rfl⟩
    · cases h

theorem Invocation.finds_iff
    (h : List.Forall₂ (Reference.Gives s) (Dict.under i.hash key) vs) :
    i.Finds s key o ↔ o = vs.head? := by
  have hfirst : i.hashValue? key = (Dict.under i.hash key).head? := Dict.get?_eq_head?_under
  rw [Finds, hfirst]
  generalize Dict.under i.hash key = rs at h
  cases h with
  | nil => rfl
  | @cons r v _ _ hv _ =>
    constructor
    · rintro ⟨w, rfl, hw⟩
      rw [hw.unique hv]
      rfl
    · rintro rfl
      exact ⟨v, rfl, hv⟩

/-- A condition reads the first value that is written for its option. -/
theorem Setting.exists_test_eq (h : i.Finds s "includeZero" o) (subject : Option Value) :
    ∃ notes, ∀ log, s.test i subject log =
      .ok (subject.any fun v => v.isTruthy && (o.all Value.isTruthy || !v.isZero))
        (log ++ notes) := by
  rw [Invocation.Finds] at h
  cases hr : i.hashValue? "includeZero" with
  | none =>
    rw [hr] at h
    obtain rfl : o = none := h
    refine ⟨[], fun log => ?_⟩
    simp only [test, hr]
    rw [List.append_nil]
    rfl
  | some r =>
    rw [hr] at h
    obtain ⟨_, rfl, u, notes, rfl, hu⟩ := h
    refine ⟨notes, fun log => ?_⟩
    have htruthy : u.any Value.isTruthy = (u.getD .null).isTruthy := by cases u <;> rfl
    simp only [test, hr, bind, EStateM.bind, hu, htruthy, Option.all_some]
    rfl

/-- Where all hash arguments evaluate, a search for a key comes to the first value that is written
for it, and the table holds the last. So they agree on keys that are written once. The option of a
condition is the first value. -/
theorem hash_first_and_last (s : Setting) (i : Invocation) (d : Dict Value) (log log' : List String)
    (h : evalHash s i.hash [] log = .ok d log') :
    (∀ key, ∃ vs, List.Forall₂ (Reference.Gives s) (Dict.under i.hash key) vs ∧
      d.get? key = vs.getLast? ∧ ∀ o, i.Finds s key o ↔ o = vs.head?) ∧
    (∀ key, (Dict.under i.hash key).length ≤ 1 → i.Finds s key (d.get? key)) ∧
    ∀ subject, ∃ o notes, i.Finds s "includeZero" o ∧ ∀ log, s.test i subject log =
      .ok (subject.any fun v => v.isTruthy && (o.all Value.isTruthy || !v.isZero))
        (log ++ notes) := by
  obtain ⟨new, hnew, rfl⟩ := exists_of_evalHash h
  -- The values that the table is made of, and the references they come from, key by key.
  have hvalues := Dict.forall₂_under hnew
  have hlast : ∀ key, Dict.get? (Dict.insertAll [] new) key = (Dict.under new key).getLast? := by
    intro key
    rw [Dict.get?_insertAll, Dict.get?_nil, Option.or_none]
  refine ⟨fun key => ⟨_, hvalues key, hlast key, fun o => Invocation.finds_iff (hvalues key)⟩, ?_, ?_⟩
  · intro key hkey
    rw [Invocation.finds_iff (hvalues key), hlast]
    rw [(hvalues key).length_eq] at hkey
    match hunder : Dict.under new key with
    | [] => rfl
    | [v] => rfl
    | v :: w :: vs =>
      rw [hunder] at hkey
      simp at hkey
  · intro subject
    have hfinds := (Invocation.finds_iff (hvalues "includeZero")).2 rfl
    obtain ⟨notes, htest⟩ := Setting.exists_test_eq hfinds subject
    exact ⟨_, notes, hfinds, htest⟩

theorem hash_first_and_last_once :
    let s : Setting := ⟨Engine.create {}, none, .ofContext .null, []⟩
    let i : Invocation := ⟨none, [], [("includeZero", .literal (.bool false))], []⟩
    ∃ d, evalHash s i.hash [] [] = .ok d [] ∧ i.Finds s "includeZero" (d.get? "includeZero") ∧
      d.get? "includeZero" = some (.bool false) := by
  intro s i
  have h : evalHash s i.hash [] [] = .ok [("includeZero", .bool false)] [] := rfl
  exact ⟨_, h, (hash_first_and_last s i _ [] [] h).2.1 "includeZero" (by decide), rfl⟩

/-- A search for a repeated key and the table differ. -/
theorem repeated_key_differs :
    let s : Setting := ⟨Engine.create {}, none, .ofContext .null, []⟩
    ∃ i d, Invocation.parse "0 includeZero=false includeZero=true".toList = .ok i ∧
      evalHash s i.hash [] [] = .ok d [] ∧ i.Finds s "includeZero" (some (.bool false)) ∧
      d.get? "includeZero" = some (.bool true) ∧
      ¬ i.Finds s "includeZero" (d.get? "includeZero") := by
  intro s
  let key := "includeZero"
  let zero : Token := ⟨.word, ['0'], none, "includeZero=false includeZero=true".toList⟩
  let no : Token := ⟨.word, "false".toList, some key.toList, "includeZero=true".toList⟩
  let yes : Token := ⟨.word, "true".toList, some key.toList, []⟩
  let i : Invocation := ⟨none, [.literal (.number (.int 0))],
    [(key, .literal (.bool false)), (key, .literal (.bool true))], []⟩
  have hall : Token.all "0 includeZero=false includeZero=true".toList = .ok [zero, no, yes] := by
    decide +kernel
  have hi : Invocation.Accounts [zero, no, yes] i :=
    ⟨[zero], [no, yes], [], rfl, .cons ⟨rfl, rfl⟩ .nil, .cons ⟨rfl, rfl⟩ (.cons ⟨rfl, rfl⟩ .nil),
      .nothing, rfl⟩
  have ha := Invocation.parseArguments_eq_ok_iff.2 ⟨_, hall, hi⟩
  have hp : Invocation.parse "0 includeZero=false includeZero=true".toList = .ok i := by
    simp only [Invocation.parse, ha]
    rfl
  have hfalse : (Reference.literal (.bool false)).Gives s (.bool false) :=
    ⟨some (.bool false), [], rfl, fun log => by rw [List.append_nil]; rfl⟩
  refine ⟨i, [(key, .bool true)], hp, rfl, ⟨_, rfl, hfalse⟩, rfl, ?_⟩
  rintro ⟨v, hv, hgives⟩
  cases hv
  cases hgives.unique hfalse

end
end TextTemplate
