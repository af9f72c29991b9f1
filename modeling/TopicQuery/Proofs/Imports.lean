import Mathlib.Data.List.Nodup
import Mathlib.Logic.Relation
import TopicQuery.Conversion

/-!
Loading from a library. The budget of the loop never ends it, so that it runs as
the loader does without one: depth first, each document once. What is known at
the end is what was known at the start and everything that is reached without
going through a document known at the start.
-/

namespace TopicQuery

namespace Library

variable {library : Library} {plus : Bool} {known roots : List Iri} {a b : Iri}

/-- A document of the library imports another one. -/
def Imports (library : Library) (plus : Bool) (a b : Iri) : Prop :=
  ∃ text d, library.find? a = some text ∧ Query.ofText plus a text = .ok d ∧ b ∈ d.modules

/-- A document is reached from the roots along the imports of documents that are not known. -/
def Reaches (library : Library) (plus : Bool) (known roots : List Iri) (iri : Iri) : Prop :=
  ∃ root ∈ roots, Relation.ReflTransGen (fun a b => a ∉ known ∧ library.Imports plus a b) root iri

theorem reaches_root (h : a ∈ roots) : library.Reaches plus known roots a :=
  ⟨a, h, .refl⟩

theorem Reaches.mono {known' roots' : List Iri} (h : library.Reaches plus known' roots' a)
    (hknown : known ⊆ known') (hroots : roots' ⊆ roots) : library.Reaches plus known roots a := by
  obtain ⟨root, hroot, hpath⟩ := h
  refine ⟨root, hroots hroot, hpath.lift id fun _ _ hedge => ?_⟩
  exact ⟨fun h => hedge.1 (hknown h), hedge.2⟩

/-- What the imports of a root reach, the root reaches. -/
theorem reaches_imported {d : Query} {text : String} (hroot : a ∈ roots) (hnew : a ∉ known)
    (hfind : library.find? a = some text) (hread : Query.ofText plus a text = .ok d)
    (h : library.Reaches plus known d.modules b) : library.Reaches plus known roots b := by
  obtain ⟨next, hnext, hpath⟩ := h
  exact ⟨a, hroot, .head ⟨hnew, text, d, hfind, hread, hnext⟩ hpath⟩

/-- A set that holds the roots and the imports of all it holds, but for the known ones, holds
what is reached. -/
theorem Reaches.mem {s : List Iri} (h : library.Reaches plus known roots a) (hroots : roots ⊆ s)
    (hclosed : ∀ a ∈ s, a ∉ known → ∀ b, library.Imports plus a b → b ∈ s) : a ∈ s := by
  obtain ⟨root, hroot, hpath⟩ := h
  induction hpath with
  | refl => exact hroots hroot
  | tail _ hedge ih => exact hclosed _ ih hedge.1 _ hedge.2

theorem find?_mem {text : String} (h : library.find? a = some text) :
    (a, text) ∈ library.documents := by
  rw [find?, Option.map_eq_some_iff] at h
  obtain ⟨d, hfound, rfl⟩ := h
  have hiri := List.find?_some hfound
  simp only [beq_iff_eq] at hiri
  exact hiri ▸ List.mem_of_find?_eq_some hfound

/-! ## The loader as a relation -/

theorem ofModule_ok {iri : Iri} {text : String} {d : Query}
    (h : Query.ofModule plus iri ⟨.text text, iri⟩ = .ok d) : Query.ofText plus iri text = .ok d := by
  have hbind : (Query.ofText plus iri text >>= fun module =>
      if module.isModule then pure module else throw (statementFound iri)) = .ok d := h
  cases hread : Query.ofText plus iri text with
  | error failure => simp [hread, bind, Except.bind] at hbind
  | ok module =>
      simp only [hread, bind, Except.bind] at hbind
      split at hbind
      · exact congrArg Except.ok (Except.ok.inj hbind)
      · cases hbind

end Library

/--
The loader without a budget: what it makes of some pending documents. All that
a document imports is loaded before the next pending document.
-/
inductive Loads (library : Library) (plus : Bool) :
    Loading → List Iri → Loading × Option Failure → Prop
  | done {l : Loading} : Loads library plus l [] (l, none)
  | known {l : Loading} {iri : Iri} {pending : List Iri} {o : Loading × Option Failure}
      (hknown : iri ∈ l.processed) (hrest : Loads library plus l pending o) :
      Loads library plus l (iri :: pending) o
  | absent {l : Loading} {iri : Iri} {pending : List Iri} {o : Loading × Option Failure}
      (hnew : iri ∉ l.processed) (hfind : library.find? iri = none)
      (hrest : Loads library plus (l.mark iri) pending o) :
      Loads library plus l (iri :: pending) o
  | broken {l : Loading} {iri : Iri} {pending : List Iri} {text : String} {failure : Failure}
      (hnew : iri ∉ l.processed) (hfind : library.find? iri = some text)
      (hread : Query.ofModule plus iri ⟨.text text, iri⟩ = .error failure) :
      Loads library plus l (iri :: pending) (l.mark iri, some failure)
  | stopped {l l' : Loading} {iri : Iri} {pending : List Iri} {text : String} {module : Query}
      {failure : Failure} (hnew : iri ∉ l.processed) (hfind : library.find? iri = some text)
      (hread : Query.ofModule plus iri ⟨.text text, iri⟩ = .ok module)
      (himports : Loads library plus ((l.mark iri).add iri module) module.modules
        (l', some failure)) :
      Loads library plus l (iri :: pending) (l', some failure)
  | loaded {l l' : Loading} {iri : Iri} {pending : List Iri} {text : String} {module : Query}
      {o : Loading × Option Failure} (hnew : iri ∉ l.processed)
      (hfind : library.find? iri = some text)
      (hread : Query.ofModule plus iri ⟨.text text, iri⟩ = .ok module)
      (himports : Loads library plus ((l.mark iri).add iri module) module.modules (l', none))
      (hrest : Loads library plus l' pending o) :
      Loads library plus l (iri :: pending) o

namespace Loads

variable {library : Library} {plus : Bool} {l l' : Loading} {o : Loading × Option Failure}

/-- Pending documents are loaded one part behind the other, until one fails. -/
theorem split {front pending : List Iri} (h : Loads library plus l (front ++ pending) o) :
    (∃ l' failure, o = (l', some failure) ∧ Loads library plus l front o) ∨
      ∃ l', Loads library plus l front (l', none) ∧ Loads library plus l' pending o := by
  induction front generalizing l with
  | nil => exact .inr ⟨l, .done, h⟩
  | cons iri front ih =>
      cases h with
      | known hknown hrest =>
          obtain ⟨l', failure, ho, hfront⟩ | ⟨l', hfront, hpending⟩ := ih hrest
          · exact .inl ⟨l', failure, ho, .known hknown hfront⟩
          · exact .inr ⟨l', .known hknown hfront, hpending⟩
      | absent hnew hfind hrest =>
          obtain ⟨l', failure, ho, hfront⟩ | ⟨l', hfront, hpending⟩ := ih hrest
          · exact .inl ⟨l', failure, ho, .absent hnew hfind hfront⟩
          · exact .inr ⟨l', .absent hnew hfind hfront, hpending⟩
      | broken hnew hfind hread => exact .inl ⟨_, _, rfl, .broken hnew hfind hread⟩
      | stopped hnew hfind hread himports =>
          exact .inl ⟨_, _, rfl, .stopped hnew hfind hread himports⟩
      | loaded hnew hfind hread himports hrest =>
          obtain ⟨l', failure, ho, hfront⟩ | ⟨l', hfront, hpending⟩ := ih hrest
          · exact .inl ⟨l', failure, ho, .loaded hnew hfind hread himports hfront⟩
          · exact .inr ⟨l', .loaded hnew hfind hread himports hfront, hpending⟩

/-- The loader makes one thing of some pending documents. -/
theorem unique {pending : List Iri} {o' : Loading × Option Failure}
    (h : Loads library plus l pending o) (h' : Loads library plus l pending o') : o = o' := by
  induction h generalizing o' with
  | done =>
      cases h'
      rfl
  | known hknown _ ih =>
      cases h' with
      | known _ hrest => exact ih hrest
      | _ => contradiction
  | absent hnew hfind _ ih =>
      cases h' with
      | absent _ _ hrest => exact ih hrest
      | known => contradiction
      | _ => simp_all
  | broken hnew hfind hread =>
      cases h' with
      | known => contradiction
      | _ => simp_all
  | stopped hnew hfind hread _ ih =>
      cases h' with
      | known => contradiction
      | stopped _ hfind' hread' himports =>
          obtain rfl := Option.some.inj (hfind.symm.trans hfind')
          obtain rfl := Except.ok.inj (hread.symm.trans hread')
          exact ih himports
      | loaded _ hfind' hread' himports =>
          obtain rfl := Option.some.inj (hfind.symm.trans hfind')
          obtain rfl := Except.ok.inj (hread.symm.trans hread')
          cases ih himports
      | _ => simp_all
  | loaded hnew hfind hread _ _ ih ihrest =>
      cases h' with
      | known => contradiction
      | stopped _ hfind' hread' himports =>
          obtain rfl := Option.some.inj (hfind.symm.trans hfind')
          obtain rfl := Except.ok.inj (hread.symm.trans hread')
          cases ih himports
      | loaded _ hfind' hread' himports hrest =>
          obtain rfl := Option.some.inj (hfind.symm.trans hfind')
          obtain rfl := Except.ok.inj (hread.symm.trans hread')
          cases ih himports
          exact ihrest hrest
      | _ => simp_all

end Loads

namespace Library

variable {library : Library} {plus : Bool} {a : Iri}

/-! ## The budget -/

/-- The documents of the library that are still to be looked at. -/
def unseen (library : Library) (l : Loading) : List (Iri × String) :=
  library.documents.filter fun d => decide (d.1 ∉ l.processed)

theorem unseen_mark (l : Loading) (iri : Iri) :
    (library.unseen (l.mark iri)).Sublist (library.unseen l) :=
  List.monotone_filter_right library.documents fun d hd => by
    simp only [Loading.mark, List.mem_cons, not_or, decide_eq_true_eq] at hd ⊢
    exact hd.2

/-- Looking at a document of the library leaves less to be looked at. -/
theorem unseen_mark_lt {l : Loading} {text : String} (hnew : a ∉ l.processed)
    (hfind : library.find? a = some text) :
    (library.unseen (l.mark a)).length < (library.unseen l).length := by
  refine Nat.lt_of_le_of_ne (unseen_mark l a).length_le fun heq => ?_
  have hmem : (a, text) ∈ library.unseen l :=
    List.mem_filter.mpr ⟨find?_mem hfind, by simpa using hnew⟩
  rw [← (unseen_mark l a).eq_of_length heq] at hmem
  simp [unseen, Loading.mark] at hmem

/-- With a module for each document that is still to be looked at, the loop runs as the loader does. -/
theorem loads_of_budget (budget : Nat) (l : Loading) (pending : List Iri)
    (h : (library.unseen l).length ≤ budget) :
    Loads library plus l pending
      (Id.run (l.load plus (fun iri => pure (.ok (library.source? iri))) budget pending)) := by
  cases pending with
  | nil =>
      rw [Loading.load]
      exact .done
  | cons iri pending =>
      rw [Loading.load]
      by_cases hknown : iri ∈ l.processed
      · rw [if_pos hknown]
        exact .known hknown (loads_of_budget budget l pending h)
      · rw [if_neg hknown]
        cases hfind : library.find? iri with
        | none =>
            have hmark : (library.unseen (l.mark iri)).length ≤ (library.unseen l).length :=
              (unseen_mark l iri).length_le
            simp only [pure_bind, source?, hfind, Option.map_none]
            exact .absent hknown hfind (loads_of_budget budget (l.mark iri) pending (by omega))
        | some text =>
            have hmark := unseen_mark_lt hknown hfind
            simp only [pure_bind, source?, hfind, Option.map_some]
            cases hread : Query.ofModule plus iri ⟨.text text, iri⟩ with
            | error failure => exact .broken hknown hfind hread
            | ok module =>
                cases budget with
                | zero => omega
                | succ budget =>
                    have hrun := loads_of_budget budget ((l.mark iri).add iri module)
                      (module.modules ++ pending) (Nat.le_of_lt_succ (Nat.lt_of_lt_of_le hmark h))
                    obtain ⟨l', failure, ho, himports⟩ | ⟨l', himports, hrest⟩ := hrun.split
                    · simp only [source?] at ho himports
                      rw [ho] at himports ⊢
                      exact .stopped hknown hfind hread himports
                    · exact .loaded hknown hfind hread himports hrest
termination_by (budget, pending.length)

/-- Loading from a library comes to an end as the loader does without a budget. -/
theorem loads_load (l : Loading) (pending : List Iri) :
    Loads library plus l pending (library.load plus l pending) :=
  loads_of_budget _ l pending (List.length_filter_le _ _)

end Library

/-! ## What a run has done -/

/-- The modules are those of the documents of the library that were marked in between, each once. -/
structure Library.Adds (library : Library) (plus : Bool) (before after : List Iri)
    (modules : List Module) : Prop where
  nodup : (modules.map Module.iri).Nodup
  iris : ∀ iri, iri ∈ modules.map Module.iri ↔
    iri ∈ after ∧ iri ∉ before ∧ (library.find? iri).isSome
  rules : ∀ m ∈ modules, ∃ text d,
    library.find? m.iri = some text ∧ Query.ofText plus m.iri text = .ok d ∧ m.rules = d.rules

/-- What is marked between `l` and `l'` is what the pending documents reach, with its modules. -/
structure Library.Traverses (library : Library) (plus : Bool) (l : Loading) (pending : List Iri)
    (l' : Loading) : Prop where
  kept : l.processed ⊆ l'.processed
  marked : pending ⊆ l'.processed
  reached : ∀ iri ∈ l'.processed,
    iri ∈ l.processed ∨ library.Reaches plus l.processed pending iri
  closed : ∀ a ∈ l'.processed, a ∉ l.processed → ∀ b, library.Imports plus a b → b ∈ l'.processed
  added : ∃ modules, l'.modules = l.modules ++ modules ∧
    library.Adds plus l.processed l'.processed modules

namespace Library

variable {library : Library} {plus : Bool} {before mid after : List Iri} {l l' l'' : Loading}
  {iri : Iri} {pending : List Iri}

theorem adds_nil (h : ∀ iri ∈ after, iri ∉ before → library.find? iri = none) :
    library.Adds plus before after [] where
  nodup := List.nodup_nil
  iris iri := by
    constructor
    · intro hmem
      cases hmem
    · rintro ⟨hafter, hbefore, hfound⟩
      simp [h iri hafter hbefore] at hfound
  rules m hm := by cases hm

theorem Adds.append {xs ys : List Module} (hxs : library.Adds plus before mid xs)
    (hys : library.Adds plus mid after ys) (hbefore : before ⊆ mid) (hafter : mid ⊆ after) :
    library.Adds plus before after (xs ++ ys) where
  nodup := by
    rw [List.map_append]
    refine hxs.nodup.append hys.nodup fun iri hx hy => ?_
    exact ((hys.iris iri).mp hy).2.1 ((hxs.iris iri).mp hx).1
  iris iri := by
    rw [List.map_append, List.mem_append, hxs.iris, hys.iris]
    constructor
    · rintro (⟨hmid, hnew, hfound⟩ | ⟨hnew, hmid, hfound⟩)
      · exact ⟨hafter hmid, hnew, hfound⟩
      · exact ⟨hnew, fun h => hmid (hbefore h), hfound⟩
    · rintro ⟨hmem, hnew, hfound⟩
      by_cases hmid : iri ∈ mid
      · exact .inl ⟨hmid, hnew, hfound⟩
      · exact .inr ⟨hmem, hmid, hfound⟩
  rules m hm := (List.mem_append.mp hm).elim (hxs.rules m) (hys.rules m)

theorem traverses_nil (l : Loading) : library.Traverses plus l [] l where
  kept := List.Subset.refl _
  marked := List.nil_subset _
  reached iri h := .inl h
  closed a h hnew := absurd h hnew
  added := ⟨[], by simp, adds_nil fun iri h hnew => absurd h hnew⟩

/-- A document that is known is passed over. -/
theorem traverses_known (h : iri ∈ l.processed) : library.Traverses plus l [iri] l where
  kept := List.Subset.refl _
  marked := by simpa using h
  reached iri h := .inl h
  closed a h hnew := absurd h hnew
  added := ⟨[], by simp, adds_nil fun iri h hnew => absurd h hnew⟩

/-- A document that the library does not hold is marked. -/
theorem traverses_absent (hfind : library.find? iri = none) :
    library.Traverses plus l [iri] (l.mark iri) where
  kept := List.subset_cons_self _ _
  marked := by simp [Loading.mark]
  reached a h := by
    obtain rfl | h := List.mem_cons.mp h
    · exact .inr (reaches_root List.mem_cons_self)
    · exact .inl h
  closed a h hnew b himports := by
    obtain rfl | h := List.mem_cons.mp h
    · obtain ⟨text, d, hfound, -⟩ := himports
      simp [hfind] at hfound
    · exact absurd h hnew
  added := ⟨[], by simp [Loading.mark], adds_nil fun a h hnew => by
    obtain rfl | h := List.mem_cons.mp h
    · exact hfind
    · exact absurd h hnew⟩

/-- A document that the library holds is marked, and what it imports is loaded behind it. -/
theorem traverses_loaded {text : String} {d : Query} (hnew : iri ∉ l.processed)
    (hfind : library.find? iri = some text) (hread : Query.ofText plus iri text = .ok d)
    (h : library.Traverses plus ((l.mark iri).add iri d) d.modules l') :
    library.Traverses plus l [iri] l' where
  kept a ha := h.kept (List.mem_cons_of_mem _ ha)
  marked a ha := by
    obtain rfl := List.mem_singleton.mp ha
    exact h.kept List.mem_cons_self
  reached a ha := by
    obtain hmarked | hreach := h.reached a ha
    · obtain rfl | hmem := List.mem_cons.mp hmarked
      · exact .inr (reaches_root List.mem_cons_self)
      · exact .inl hmem
    · have himported := hreach.mono (List.subset_cons_self _ _) (List.Subset.refl _)
      exact .inr (reaches_imported List.mem_cons_self hnew hfind hread himported)
  closed a ha hanew b himports := by
    by_cases hmarked : a ∈ ((l.mark iri).add iri d).processed
    · obtain rfl | hmem := List.mem_cons.mp hmarked
      · obtain ⟨text', d', hfind', hread', hb⟩ := himports
        obtain rfl := Option.some.inj (hfind.symm.trans hfind')
        obtain rfl := Except.ok.inj (hread.symm.trans hread')
        exact h.marked hb
      · exact absurd hmem hanew
    · exact h.closed a ha hmarked b himports
  added := by
    obtain ⟨modules, hmodules, hadds⟩ := h.added
    have hone : library.Adds plus l.processed (iri :: l.processed) [⟨iri, d.rules⟩] := by
      refine ⟨by simp, fun a => ?_, fun m hm => ?_⟩
      · simp only [List.map_cons, List.map_nil, List.mem_cons, List.not_mem_nil, or_false]
        constructor
        · rintro rfl
          exact ⟨.inl rfl, hnew, by simp [hfind]⟩
        · rintro ⟨rfl | hmem, hanew, -⟩
          · rfl
          · exact absurd hmem hanew
      · obtain rfl := List.mem_singleton.mp hm
        exact ⟨text, d, hfind, hread, rfl⟩
    refine ⟨[⟨iri, d.rules⟩] ++ modules, ?_, hone.append hadds (List.subset_cons_self _ _) h.kept⟩
    rw [hmodules]
    simp [Loading.add, Loading.mark]

/-- One run behind another. -/
theorem Traverses.append {front : List Iri} (hfront : library.Traverses plus l front l')
    (hrest : library.Traverses plus l' pending l'') :
    library.Traverses plus l (front ++ pending) l'' where
  kept a ha := hrest.kept (hfront.kept ha)
  marked a ha := (List.mem_append.mp ha).elim (fun h => hrest.kept (hfront.marked h))
    (fun h => hrest.marked h)
  reached a ha := by
    obtain hmem | hreach := hrest.reached a ha
    · obtain hmem | hreach := hfront.reached a hmem
      · exact .inl hmem
      · exact .inr (hreach.mono (List.Subset.refl _) (List.subset_append_left _ _))
    · exact .inr (hreach.mono hfront.kept (List.subset_append_right _ _))
  closed a ha hnew b himports := by
    by_cases hmem : a ∈ l'.processed
    · exact hrest.kept (hfront.closed a hmem hnew b himports)
    · exact hrest.closed a ha hmem b himports
  added := by
    obtain ⟨xs, hxs, haddsx⟩ := hfront.added
    obtain ⟨ys, hys, haddsy⟩ := hrest.added
    exact ⟨xs ++ ys, by rw [hys, hxs, List.append_assoc],
      haddsx.append haddsy hfront.kept hrest.kept⟩

/-- A run of the loader that comes to its end has been everywhere. -/
theorem traverses_of_loads {o : Loading × Option Failure} (h : Loads library plus l pending o)
    (hdone : o.2 = none) : library.Traverses plus l pending o.1 := by
  induction h with
  | done => exact traverses_nil _
  | known hknown _ ih => exact (traverses_known hknown).append (ih hdone)
  | absent _ hfind _ ih => exact (traverses_absent hfind).append (ih hdone)
  | broken => cases hdone
  | stopped => cases hdone
  | loaded hnew hfind hread _ _ ihimports ihrest =>
      exact (traverses_loaded hnew hfind (ofModule_ok hread) (ihimports rfl)).append (ihrest hdone)

theorem Traverses.mem_processed_iff (h : library.Traverses plus l pending l') :
    iri ∈ l'.processed ↔ iri ∈ l.processed ∨ library.Reaches plus l.processed pending iri := by
  constructor
  · exact h.reached iri
  · rintro (hmem | hreach)
    · exact h.kept hmem
    · exact hreach.mem h.marked h.closed

end Library

open Library

/--
Loading from a library comes to an end, whatever imports what. If nothing fails,
the documents that are known then are those known before and all that the query
reaches without passing through one of them, and the modules that are added are
those of the newly known documents that the library holds, each once and with
the rules of its document.
-/
theorem load_traverses (library : Library) (plus : Bool) (q : Query) (l : Loading) :
    Loads library plus l q.modules (library.load plus l q.modules) ∧
      ∀ l', library.load plus l q.modules = (l', none) →
        (∀ iri, iri ∈ l'.processed ↔
          iri ∈ l.processed ∨ library.Reaches plus l.processed q.modules iri) ∧
        ∃ added, l'.modules = l.modules ++ added ∧ (added.map Module.iri).Nodup ∧
          (∀ iri, iri ∈ added.map Module.iri ↔
            iri ∈ l'.processed ∧ iri ∉ l.processed ∧ (library.find? iri).isSome) ∧
          ∀ m ∈ added, ∃ text d, library.find? m.iri = some text ∧
            Query.ofText plus m.iri text = .ok d ∧ m.rules = d.rules := by
  refine ⟨loads_load l q.modules, fun l' hrun => ?_⟩
  have hloads : Loads library plus l q.modules (l', none) := hrun ▸ loads_load l q.modules
  have htraverses := traverses_of_loads hloads rfl
  obtain ⟨added, hmodules, hadds⟩ := htraverses.added
  exact ⟨fun _ => htraverses.mem_processed_iff, added, hmodules, hadds.nodup, hadds.iris,
    hadds.rules⟩

/-! ### Two documents that import each other -/

theorem exists_ok_of_map {α β ε : Type} {x : Except ε α} {f : α → β} {b : β}
    (h : x.toOption.map f = some b) : ∃ a, x = .ok a ∧ f a = b := by
  cases x with
  | error => cases h
  | ok a => exact ⟨a, rfl, Option.some.inj h⟩

/-- A document of the example, by its file name. -/
def exampleIri (name : String) : Iri := ⟨"http", some "example.org", "/" ++ name, none, none⟩

/-- Two documents that import each other. -/
def cyclicLibrary : Library :=
  ⟨[(exampleIri "a.tl", "import \"b.tl\" as b p($x) :- b:q($x)."),
    (exampleIri "b.tl", "import \"a.tl\" as a q($x) :- a:p($x).")]⟩

/-- They are loaded once each. -/
theorem loads_cyclicLibrary (known : List Iri) (ha : exampleIri "a.tl" ∉ known)
    (hb : exampleIri "b.tl" ∉ known) :
    ∃ l, Loads cyclicLibrary false (.start known) [exampleIri "a.tl"] (l, none) := by
  obtain ⟨a, hreada, hmodulesa⟩ := exists_ok_of_map (by decide +kernel :
    (Query.ofModule false (exampleIri "a.tl")
      ⟨.text "import \"b.tl\" as b p($x) :- b:q($x).", exampleIri "a.tl"⟩).toOption.map
        Query.modules = some [exampleIri "b.tl"])
  obtain ⟨b, hreadb, hmodulesb⟩ := exists_ok_of_map (by decide +kernel :
    (Query.ofModule false (exampleIri "b.tl")
      ⟨.text "import \"a.tl\" as a q($x) :- a:p($x).", exampleIri "b.tl"⟩).toOption.map
        Query.modules = some [exampleIri "a.tl"])
  have hnew : exampleIri "b.tl" ∉ exampleIri "a.tl" :: known := by
    simp only [List.mem_cons, not_or]
    exact ⟨by decide, hb⟩
  set l := ((Loading.start known).mark (exampleIri "a.tl")).add (exampleIri "a.tl") a
  set l' := (l.mark (exampleIri "b.tl")).add (exampleIri "b.tl") b
  have hback : Loads cyclicLibrary false l' b.modules (l', none) := by
    rw [hmodulesb]
    exact .known (List.mem_cons_of_mem _ List.mem_cons_self) .done
  have himports : Loads cyclicLibrary false l a.modules (l', none) := by
    rw [hmodulesa]
    exact .loaded hnew rfl hreadb hback .done
  exact ⟨l', .loaded ha rfl hreada himports .done⟩

theorem load_traverses_cyclicLibrary :
    ∃ l, cyclicLibrary.load false (.start []) [exampleIri "a.tl"] = (l, none) ∧
      ∀ iri, iri ∈ l.processed ↔ cyclicLibrary.Reaches false [] [exampleIri "a.tl"] iri := by
  obtain ⟨l, hloads⟩ := loads_cyclicLibrary [] List.not_mem_nil List.not_mem_nil
  have hload : cyclicLibrary.load false (.start []) [exampleIri "a.tl"] = (l, none) :=
    (loads_load _ _).unique hloads
  have hiff := ((load_traverses cyclicLibrary false
    ⟨exampleIri "main.tl", [⟨"a", exampleIri "a.tl", .module⟩], [], none, []⟩ (.start [])).2 l
      hload).1
  exact ⟨l, hload, fun iri => (hiff iri).trans (or_iff_right List.not_mem_nil)⟩

/-! ## Queries with their modules -/

namespace Library

variable {library : Library} {plus : Bool}

theorem load_eq_of_loads {l : Loading} {pending : List Iri} {o : Loading × Option Failure}
    (h : Loads library plus l pending o) : library.load plus l pending = o :=
  (loads_load l pending).unique h

theorem loadAll_eq (library : Library) (plus : Bool) (q : Query) :
    library.loadAll plus q =
      match library.load plus (.start [q.base]) q.modules with
      | (l, none) => .ok l.modules
      | (_, some failure) => .error failure := by
  rw [loadAll, Loading.loadAll, load]
  simp only [Id.run, bind, pure]
  split <;> simp_all

theorem loadAll_of_loads {q : Query} {l : Loading}
    (h : Loads library plus (.start [q.base]) q.modules (l, none)) :
    library.loadAll plus q = .ok l.modules := by
  rw [loadAll_eq, load_eq_of_loads h]

theorem load_of_loadAll {q : Query} {modules : List Module}
    (h : library.loadAll plus q = .ok modules) :
    ∃ l, library.load plus (.start [q.base]) q.modules = (l, none) ∧ l.modules = modules := by
  rw [loadAll_eq] at h
  split at h
  next l hload => exact ⟨l, hload, Except.ok.inj h⟩
  next => cases h

end Library

/-- The modules of a query are the documents of the library that it reaches, each once, apart from
its own document. -/
structure Query.ImportsReached (library : Library) (plus : Bool) (own : Iri) (q : Query) :
    Prop where
  once : (q.imported.map Module.iri).Nodup
  reached : ∀ iri, iri ∈ q.imported.map Module.iri ↔
    iri ≠ own ∧ (library.find? iri).isSome ∧ library.Reaches plus [own] q.modules iri

theorem Query.exists_of_withLibrary {library : Library} {options : ReadOptions} {source : Source}
    {q : Query} (h : Query.withLibrary library options source = .ok q) :
    ∃ alone modules, Query.ofSource .plain options source = .ok alone ∧
      library.loadAll options.plus alone = .ok modules ∧ q = { alone with imported := modules } := by
  simp only [withLibrary, bind, Except.bind] at h
  split at h
  next => cases h
  next alone halone =>
    split at h
    next => cases h
    next modules hmodules => exact ⟨alone, modules, halone, hmodules, (Except.ok.inj h).symm⟩

theorem Query.withLibrary_of_loads {library : Library} {options : ReadOptions} {source : Source}
    {alone : Query} {l : Loading} (halone : Query.ofSource .plain options source = .ok alone)
    (h : Loads library options.plus (.start [alone.base]) alone.modules (l, none)) :
    Query.withLibrary library options source = .ok { alone with imported := l.modules } := by
  simp only [withLibrary, halone, Library.loadAll_of_loads h, bind, Except.bind]
  rfl

/--
A query gets the modules it reaches, each once, where its base stands for its own
document. A base directive changes it.
-/
theorem importsReached_of_base {library : Library} {options : ReadOptions} {source : Source}
    {q : Query} (h : Query.withLibrary library options source = .ok q) :
    q.ImportsReached library options.plus q.base := by
  obtain ⟨alone, modules, -, hmodules, rfl⟩ := Query.exists_of_withLibrary h
  obtain ⟨l, hload, rfl⟩ := load_of_loadAll hmodules
  have htraverses := traverses_of_loads (hload ▸ loads_load _ alone.modules) rfl
  obtain ⟨added, hadded, hadds⟩ := htraverses.added
  obtain rfl : l.modules = added := hadded
  refine ⟨hadds.nodup, fun iri => ?_⟩
  rw [hadds.iris, htraverses.mem_processed_iff]
  simp only [Loading.start, List.mem_singleton]
  constructor
  · rintro ⟨hmem | hreach, hne, hfound⟩
    · exact absurd hmem hne
    · exact ⟨hne, hfound, hreach⟩
  · rintro ⟨hne, hfound, hreach⟩
    exact ⟨.inr hreach, hne, hfound⟩

theorem importsReached_of_base_cyclicLibrary :
    ∃ q, Query.withLibrary cyclicLibrary ⟨false, none⟩
        ⟨.text "import \"a.tl\" as a select $x from a:p($x)?", exampleIri "main.tl"⟩ = .ok q ∧
      q.base = exampleIri "main.tl" ∧ q.modules = [exampleIri "a.tl"] ∧
      q.ImportsReached cyclicLibrary false q.base := by
  obtain ⟨alone, halone, hparts⟩ := exists_ok_of_map (by decide +kernel :
    (Query.ofSource .plain ⟨false, none⟩ ⟨.text "import \"a.tl\" as a select $x from a:p($x)?",
      exampleIri "main.tl"⟩).toOption.map (fun q => (q.base, q.modules)) =
        some (exampleIri "main.tl", [exampleIri "a.tl"]))
  obtain ⟨hbase, hmodules⟩ := Prod.mk.inj hparts
  obtain ⟨l, hloads⟩ := loads_cyclicLibrary [exampleIri "main.tl"] (by decide)
    (by decide)
  rw [← hbase, ← hmodules] at hloads
  have hquery := Query.withLibrary_of_loads halone hloads
  exact ⟨_, hquery, hbase, hmodules, importsReached_of_base hquery⟩

/-- A module that the base directive names is not loaded, although it is not the query's own
document. -/
theorem not_importsReached_base_directive :
    ∃ q, Query.withLibrary ⟨[(exampleIri "m.tl", "r($x) :- instance-of($x, a).")]⟩ ⟨false, none⟩
        ⟨.text
      "%base <http://example.org/m.tl> %import m <http://example.org/m.tl> select $x from m:r($x)?",
          exampleIri "q/main.tl"⟩ = .ok q ∧
      ¬q.ImportsReached ⟨[(exampleIri "m.tl", "r($x) :- instance-of($x, a).")]⟩ false
        (exampleIri "q/main.tl") := by
  obtain ⟨alone, halone, hparts⟩ := exists_ok_of_map (by decide +kernel :
    (Query.ofSource .plain ⟨false, none⟩ ⟨.text
      "%base <http://example.org/m.tl> %import m <http://example.org/m.tl> select $x from m:r($x)?",
      exampleIri "q/main.tl"⟩).toOption.map
        (fun q => (q.base, q.modules)) = some (exampleIri "m.tl", [exampleIri "m.tl"]))
  obtain ⟨hbase, hmodules⟩ := Prod.mk.inj hparts
  have hloads : Loads ⟨[(exampleIri "m.tl", "r($x) :- instance-of($x, a).")]⟩ false
      (.start [alone.base]) alone.modules (.start [alone.base], none) := by
    rw [hbase, hmodules]
    exact .known List.mem_cons_self .done
  refine ⟨_, Query.withLibrary_of_loads halone hloads, fun h => ?_⟩
  have himports : exampleIri "m.tl" ∈ alone.modules := by
    rw [hmodules]
    exact List.mem_cons_self
  cases (h.reached (exampleIri "m.tl")).mpr ⟨by decide, by decide, reaches_root himports⟩

end TopicQuery
