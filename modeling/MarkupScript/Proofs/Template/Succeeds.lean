import MarkupScript.Proofs.Template.Lower
import MarkupScript.Proofs.Template.Ready

/-!
# Lowering succeeds

The only thing that can go wrong is an end tag that finds no element open in its template function.
How many elements are open depends on the tags alone, so it is known beforehand: lowering succeeds
if the end tags of every function find their elements open.
-/

namespace MarkupScript

/-- How many elements are open in the template function whose markup comes next. -/
def Lowering.openCount (st : Lowering) : Option Nat := st.template.map (·.openElements.length)

/-- From every state with `i` elements open, `x` succeeds and leaves `k` open. -/
def Lower.Succeeds (x : Lower α) (i k : Option Nat) : Prop :=
  ∀ st : Lowering, st.openCount = i → ∃ a st', x st = .ok (a, st') ∧ st'.openCount = k

namespace Lower.Succeeds

theorem pure (a : α) (n : Option Nat) : Succeeds (Pure.pure a) n n :=
  fun st hst => ⟨a, st, rfl, hst⟩

theorem bind {x : Lower α} {f : α → Lower β} {i j k : Option Nat} (hx : Succeeds x i j)
    (hf : ∀ a, Succeeds (f a) j k) : Succeeds (x >>= f) i k := by
  intro st hst
  obtain ⟨a, st₁, ha, hst₁⟩ := hx st hst
  obtain ⟨b, st', hb, hst'⟩ := hf a st₁ hst₁
  exact ⟨b, st', bind_eq_ok.mpr ⟨a, st₁, ha, hb⟩, hst'⟩

theorem within {template : Option Template} {x : Lower α} {k : Option Nat}
    (hx : Succeeds x (template.map (·.openElements.length)) k) (n : Option Nat) :
    Succeeds (Lower.within template x) n n := by
  intro st hst
  obtain ⟨a, st₁, ha, -⟩ := hx { st with template } rfl
  exact ⟨a, _, within_eq_ok.mpr ⟨st₁, ha, rfl⟩, hst⟩

theorem mapM {f : α → Lower β} {as : List α} {n : Option Nat}
    (h : ∀ a ∈ as, Succeeds (f a) n n) : Succeeds (as.mapM f) n n := by
  induction as with
  | nil => exact pure [] n
  | cons a as ih =>
    rw [List.mapM_cons]
    refine bind (h a List.mem_cons_self) fun b => ?_
    exact bind (ih fun a' ha' => h a' (List.mem_cons_of_mem a ha')) fun bs => pure _ n

end Lower.Succeeds

/-! ### Counting open elements -/

/-- Outside of template functions nothing is counted, and inside `f` gives the count behind. -/
inductive Passes (f : Nat → Option Nat) : Option Nat → Option Nat → Prop
  | outside : Passes f none none
  | inside {n m : Nat} : f n = some m → Passes f (some n) (some m)

theorem Passes.split {f g : Nat → Option Nat} {i k : Option Nat}
    (h : Passes (fun n => (f n).bind g) i k) :
    ∃ j, Passes f i j ∧ Passes g j k := by
  cases h with
  | outside => exact ⟨none, .outside, .outside⟩
  | @inside n m h =>
    obtain ⟨k, hk, hm⟩ := Option.bind_eq_some_iff.mp h
    exact ⟨some k, .inside hk, .inside hm⟩

/-- How many elements are open behind a tag. -/
def Stmt.tagAfter : Stmt → Nat → Option Nat
  | .elementStart _ _ _, n => some (n + 1)
  | .elementEnd _ _, n => if n = 0 then none else some (n - 1)
  | _, n => some n

theorem Stmt.elementsAfter_eq_bind {s : Stmt} (hf : s.isFunction = false) :
    s.elementsAfter = fun n => (elementsAfterAll s.nested n).bind s.tagAfter := by
  funext n
  cases ht : s.isStartOrEnd with
  | true => cases s <;> first | rfl | cases ht
  | false =>
    have htag : s.tagAfter = some := by cases s <;> first | rfl | cases ht
    rw [elementsAfter_eq hf ht, htag]
    cases elementsAfterAll s.nested n <;> rfl

theorem Stmt.tagAfter_rebuilt (s : Stmt) (bs : List (List Stmt)) (ts : List (Option Stmt)) :
    ((s.fill bs).withNested ts).tagAfter = s.tagAfter := by
  cases s with
  | decorator d =>
    cases d
    rfl
  | _ => rfl

/-- Replacing a piece of markup succeeds, unless it is an end tag with no element open. -/
theorem Lower.leaf_succeeds (options : Options) {s : Stmt} {i k : Option Nat}
    (h : Passes s.tagAfter i k) : (leaf options s).Succeeds i k := by
  rintro ⟨used, none | t⟩ rfl
  · cases h
    exact ⟨s, _, rfl, rfl⟩
  · obtain ⟨function, nextIndex, openElements⟩ := t
    cases h with | inside hm
    cases s with
    | elementStart name attributes span =>
      cases hm
      exact ⟨_, _, leaf_elementStart .., rfl⟩
    | elementEnd name span =>
      cases openElements with
      | nil => cases hm
      | cons index outer =>
        cases hm
        exact ⟨_, _, leaf_elementEnd .., rfl⟩
    | element name attributes span =>
      cases hm
      exact ⟨_, _, leaf_element .., rfl⟩
    | expression value =>
      cases hm
      cases hl : value.isLiteral with
      | true => exact ⟨_, _, leaf_literal _ _ _ hl, rfl⟩
      | false =>
        exact ⟨_, _, congrFun (leaf_of_not_markup (s := .expression value) options hl) _, rfl⟩
    | _ =>
      cases hm
      exact ⟨_, _, rfl, rfl⟩

/-! ### Statements and programs -/

section

variable {options : Options}

theorem mapM_lower_succeeds {inner : List Stmt → Lower (List Stmt)} {ss : List Stmt}
    (h : ∀ s ∈ ss, ∀ i k, Passes s.elementsAfter i k →
      (s.lower inner options).Succeeds i k)
    {i k : Option Nat} (hpass : Passes (elementsAfterAll ss) i k) :
    (ss.mapM (Stmt.lower inner options)).Succeeds i k := by
  induction ss generalizing i with
  | nil =>
    cases hpass with
    | outside => exact .pure [] none
    | inside hm =>
      cases hm
      exact .pure [] _
  | cons s ss ih =>
    obtain ⟨j, hs, hss⟩ := hpass.split
    rw [List.mapM_cons]
    refine .bind (h s List.mem_cons_self i j hs) fun t => ?_
    exact .bind (ih (fun s' hs' => h s' (List.mem_cons_of_mem s hs')) hss) fun ts => .pure _ k

/-- An arrow block belongs to no template function, so that nothing in it is counted. -/
theorem lowerDeep_succeeds {body : List Stmt}
    (h : ∀ s ∈ body, ∀ i k, Passes s.elementsAfter i k →
      (s.lower (lowerDeep options) options).Succeeds i k) (n : Option Nat) :
    (lowerDeep options body).Succeeds n n := by
  rw [lowerDeep_eq]
  exact .within (mapM_lower_succeeds h .outside) n

/-- Lowering a statement succeeds, and behind it as many elements are open as its tags say. -/
theorem Stmt.lower_succeeds (s : Stmt) (h : ∀ t ∈ s.walk true, t.Ready) :
    ∀ i k, Passes s.elementsAfter i k →
      (s.lower (lowerDeep options) options).Succeeds i k := by
  induction s using Stmt.induction with
  | step s ihBlocks ihNested =>
    intro i k hpass
    have hready : s.Ready := h s (mem_walk.mpr (.inr (.inl rfl)))
    have hnested {i k : Option Nat} :=
      mapM_lower_succeeds (i := i) (k := k) fun t ht =>
        ihNested t ht fun u hu => h u (mem_walk.mpr (.inr (.inr (mem_walkAll.mpr ⟨t, ht, hu⟩))))
    cases hf : s.isFunction with
    | true =>
      cases s with
      | function name params body own =>
        obtain ⟨m, hm⟩ := Option.isSome_iff_exists.mp (hready.paired rfl)
        have hbody : ∃ k, Passes (elementsAfterAll body)
            ((own.map fun _ => (⟨name, 0, []⟩ : Template)).map (·.openElements.length)) k := by
          cases own with
          | none => exact ⟨none, .outside⟩
          | some d => exact ⟨some m, .inside hm⟩
        obtain ⟨_, hbody⟩ := hbody
        have hsame : i = k := by
          cases hpass with
          | outside => rfl
          | inside hm => exact hm
        rw [lower_function, hsame]
        exact .bind (.within (hnested hbody) k) fun body' => .pure _ k
      | _ => cases hf
    | false =>
      rw [elementsAfter_eq_bind hf] at hpass
      obtain ⟨j, hlist, htag⟩ := hpass.split
      rw [lower_node _ _ hf]
      have hentered : s.entered true = s.arrowBlocks := by simp [entered]
      refine .bind (j := i) (.mapM fun b hb => ?_) fun bs => ?_
      · refine lowerDeep_succeeds (fun t ht => ihBlocks b hb t ht fun u hu => ?_) i
        exact h u (mem_walk.mpr (.inl ⟨b, hentered ▸ hb, mem_walkAll.mpr ⟨t, ht, hu⟩⟩))
      · refine .bind (hnested hlist) fun ts => Lower.leaf_succeeds options ?_
        rwa [tagAfter_rebuilt]

end

/-- A program that is ready to be lowered is lowered. -/
theorem Program.exists_lowerTemplates {p : Program} (options : Options)
    (h : ∀ t ∈ walkAll true p.body, t.Ready) : ∃ q, p.lowerTemplates options = .ok q := by
  have hbody : (lowerDeep options p.body).Succeeds none none :=
    lowerDeep_succeeds (fun s hs => s.lower_succeeds fun t ht =>
      h t (mem_walkAll.mpr ⟨s, hs, ht⟩)) none
  obtain ⟨body, st, hlower, -⟩ := hbody ⟨[], none⟩ rfl
  exact ⟨_, lowerTemplates_eq_ok.mpr ⟨body, st, hlower, rfl⟩⟩

end MarkupScript
