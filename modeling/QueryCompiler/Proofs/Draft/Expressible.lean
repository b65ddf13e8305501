import QueryCompiler.Proofs.Draft.Flattening

/-!
# The filters that node lists can express

A node can open one group and close one, and it closes before its own comparison. Therefore every
group begins with a comparison without connector, and something always follows where a node has
closed a group. What the end of the list closes are groups that stand last, each in the one around
it. Nothing else bounds the filters: any sequence of that form has a node list.

1. `steps_eq_ok_iff`: nodes are taken in if they can be read and their markers can be run.
2. `Sound.enter` and `Sound.run`: what one marker keeps of the groups in the making, and so do all.
3. `expressible_closeAll`: to end these groups gives an expressible sequence.
4. `run_markers`: a settled sequence is built by its own markers, and is then left as it was.
5. `run_markers_closeAll`: an expressible one is built by its own markers, up to the groups that
   the end of the list closes.

Main statement: `exists_ofNodes_iff`.
-/

namespace QueryCompiler

open Outcome

namespace Predicate

/-! ## Forms of a sequence -/

/-- The first element is a comparison without connector. -/
def BeginsPlain (ps : List Predicate) : Prop := ∃ c rest, ps = .comparison none c :: rest

/-- The last element is a group. -/
def EndsInGroup (ps : List Predicate) : Prop :=
  ∃ before connector children, ps = before ++ [.group connector children]

/-- How a sequence may end: the strict policy wants no group there. The other one lets a group
stand there, and a group that itself ends in a group may stand nowhere else. -/
def EndsWell : Policy → List Predicate → Prop
  | .strict, ps => ¬ EndsInGroup ps
  | .autoClose, ps => ∀ before connector children after,
      ps = before ++ .group connector children :: after → EndsInGroup children → after = []

/-- The form of the sequences that a policy lets node lists express. -/
structure Expressible (policy : Policy) (ps : List Predicate) : Prop where
  begins : ∀ children ∈ groups ps, BeginsPlain children
  ends : ∀ qs ∈ ps :: groups ps, EndsWell policy qs

/-- All groups inside a sequence are begun, and over before another one is. -/
structure Settled (ps : List Predicate) : Prop where
  begins : ∀ children ∈ groups ps, BeginsPlain children
  ends : ∀ children ∈ groups ps, ¬ EndsInGroup children

variable {connector : Option Connector} {c : Comparison} {children ps qs : List Predicate}

theorem endsInGroup_iff : EndsInGroup ps ↔ endsGroup false ps = true := by
  constructor
  · rintro ⟨before, connector, children, rfl⟩
    exact endsGroup_concat ..
  · intro h
    rcases List.eq_nil_or_concat ps with rfl | ⟨before, p, rfl⟩
    · cases h
    · rw [List.concat_eq_append, endsGroup_concat] at h
      cases p with
      | comparison connector c => cases h
      | group connector children => exact ⟨before, connector, children, List.concat_eq_append⟩

theorem not_endsInGroup_iff : ¬ EndsInGroup ps ↔ endsGroup false ps = false := by
  rw [endsInGroup_iff, Bool.not_eq_true]

theorem not_endsInGroup_concat_comparison : ¬ EndsInGroup (ps ++ [.comparison connector c]) := by
  rw [not_endsInGroup_iff]
  exact endsGroup_concat ..

theorem endsInGroup_cons_iff {p : Predicate} (h : ps ≠ []) :
    EndsInGroup (p :: ps) ↔ EndsInGroup ps := by
  rw [endsInGroup_iff, endsInGroup_iff]
  cases ps with
  | nil => exact absurd rfl h
  | cons q ps => rfl

theorem groups_append (ps qs : List Predicate) : groups (ps ++ qs) = groups ps ++ groups qs := by
  induction ps with
  | nil => rfl
  | cons p ps ih => rw [List.cons_append, groups, groups, ih, List.append_assoc]

theorem BeginsPlain.append (h : BeginsPlain ps) (qs : List Predicate) : BeginsPlain (ps ++ qs) := by
  obtain ⟨c, rest, rfl⟩ := h
  exact ⟨c, rest ++ qs, rfl⟩

/-! ## Settled sequences -/

theorem settled_nil : Settled [] :=
  ⟨fun _ h => absurd h List.not_mem_nil, fun _ h => absurd h List.not_mem_nil⟩

theorem settled_comparison_cons_iff : Settled (.comparison connector c :: ps) ↔ Settled ps :=
  ⟨fun h => ⟨h.begins, h.ends⟩, fun h => ⟨h.begins, h.ends⟩⟩

theorem settled_group_cons_iff :
    Settled (.group connector children :: ps) ↔
      (BeginsPlain children ∧ ¬ EndsInGroup children) ∧ Settled children ∧ Settled ps := by
  constructor
  · intro ⟨hbegins, hends⟩
    rw [groups_group_cons, List.forall_mem_cons, List.forall_mem_append] at hbegins hends
    obtain ⟨hb, hbc, hbs⟩ := hbegins
    obtain ⟨he, hec, hes⟩ := hends
    exact ⟨⟨hb, he⟩, ⟨hbc, hec⟩, hbs, hes⟩
  · rintro ⟨⟨hb, he⟩, ⟨hbc, hec⟩, hbs, hes⟩
    constructor <;> rw [groups_group_cons, List.forall_mem_cons, List.forall_mem_append]
    · exact ⟨hb, hbc, hbs⟩
    · exact ⟨he, hec, hes⟩

theorem Settled.append (hps : Settled ps) (hqs : Settled qs) : Settled (ps ++ qs) := by
  constructor <;> rw [groups_append, List.forall_mem_append]
  · exact ⟨hps.begins, hqs.begins⟩
  · exact ⟨hps.ends, hqs.ends⟩

/-! ## Expressible sequences -/

theorem expressible_strict_iff : Expressible .strict ps ↔ Settled ps ∧ ¬ EndsInGroup ps := by
  constructor
  · intro ⟨hbegins, hends⟩
    rw [List.forall_mem_cons] at hends
    exact ⟨⟨hbegins, hends.2⟩, hends.1⟩
  · rintro ⟨⟨hbegins, hends⟩, hend⟩
    exact ⟨hbegins, List.forall_mem_cons.2 ⟨hend, hends⟩⟩

theorem endsWell_comparison_cons_iff :
    EndsWell .autoClose (.comparison connector c :: ps) ↔ EndsWell .autoClose ps := by
  constructor
  · intro h before connector' children after heq
    exact h (.comparison connector c :: before) connector' children after (by rw [heq]; rfl)
  · intro h before connector' children after heq
    cases before with
    | nil => cases heq
    | cons p before =>
      cases heq
      exact h before connector' children after rfl

theorem endsWell_group_cons_iff :
    EndsWell .autoClose (.group connector children :: ps) ↔
      (EndsInGroup children → ps = []) ∧ EndsWell .autoClose ps := by
  constructor
  · intro h
    refine ⟨h [] connector children ps rfl, ?_⟩
    intro before connector' children' after heq
    exact h (.group connector children :: before) connector' children' after (by rw [heq]; rfl)
  · rintro ⟨hfirst, h⟩ before connector' children' after heq
    cases before with
    | nil =>
      cases heq
      exact hfirst
    | cons p before =>
      cases heq
      exact h before connector' children' after rfl

theorem expressible_nil : Expressible .autoClose [] := by
  refine ⟨fun _ h => absurd h List.not_mem_nil, fun qs hqs => ?_⟩
  obtain rfl := List.mem_singleton.1 hqs
  intro before connector children after heq
  exact absurd heq.symm (List.append_ne_nil_of_right_ne_nil _ (List.cons_ne_nil _ _))

theorem expressible_comparison_cons_iff :
    Expressible .autoClose (.comparison connector c :: ps) ↔ Expressible .autoClose ps := by
  constructor
  · intro ⟨hbegins, hends⟩
    rw [List.forall_mem_cons, endsWell_comparison_cons_iff] at hends
    exact ⟨hbegins, List.forall_mem_cons.2 hends⟩
  · intro ⟨hbegins, hends⟩
    rw [List.forall_mem_cons] at hends
    refine ⟨hbegins, List.forall_mem_cons.2 ?_⟩
    rw [endsWell_comparison_cons_iff]
    exact hends

theorem expressible_group_cons_iff :
    Expressible .autoClose (.group connector children :: ps) ↔
      (BeginsPlain children ∧ (EndsInGroup children → ps = [])) ∧
        Expressible .autoClose children ∧ Expressible .autoClose ps := by
  constructor
  · intro ⟨hbegins, hends⟩
    simp only [groups_group_cons, List.forall_mem_cons, List.forall_mem_append,
      endsWell_group_cons_iff] at hbegins hends
    obtain ⟨hb, hbc, hbs⟩ := hbegins
    obtain ⟨⟨he, hs⟩, hc, hec, hes⟩ := hends
    exact ⟨⟨hb, he⟩, ⟨hbc, List.forall_mem_cons.2 ⟨hc, hec⟩⟩,
      ⟨hbs, List.forall_mem_cons.2 ⟨hs, hes⟩⟩⟩
  · rintro ⟨⟨hb, he⟩, ⟨hbc, hec⟩, ⟨hbs, hes⟩⟩
    rw [List.forall_mem_cons] at hec hes
    constructor <;> simp only [groups_group_cons, List.forall_mem_cons, List.forall_mem_append,
      endsWell_group_cons_iff]
    · exact ⟨hb, hbc, hbs⟩
    · exact ⟨⟨he, hes.1⟩, hec.1, hec.2, hes.2⟩

theorem Settled.expressible (h : Settled ps) : Expressible .autoClose ps := by
  induction ps using sequenceInduction with
  | nil => exact expressible_nil
  | comparison connector c ps ih =>
    rw [expressible_comparison_cons_iff]
    exact ih (settled_comparison_cons_iff.1 h)
  | group connector children ps ihc ih =>
    obtain ⟨⟨hbegins, hend⟩, hchildren, hps⟩ := settled_group_cons_iff.1 h
    rw [expressible_group_cons_iff]
    exact ⟨⟨hbegins, fun hg => absurd hg hend⟩, ihc hchildren, ih hps⟩

/-- A group may end as it likes behind a settled sequence. -/
theorem Settled.expressible_concat (h : Settled ps) (hbegins : BeginsPlain children)
    (hchildren : Expressible .autoClose children) :
    Expressible .autoClose (ps ++ [.group connector children]) := by
  induction ps using sequenceInduction with
  | nil =>
    rw [List.nil_append, expressible_group_cons_iff]
    exact ⟨⟨hbegins, fun _ => rfl⟩, hchildren, expressible_nil⟩
  | comparison connector' c ps ih =>
    rw [List.cons_append, expressible_comparison_cons_iff]
    exact ih (settled_comparison_cons_iff.1 h)
  | group connector' children' ps _ ih =>
    obtain ⟨⟨hbegins', hend'⟩, hchildren', hps⟩ := settled_group_cons_iff.1 h
    rw [List.cons_append, expressible_group_cons_iff]
    exact ⟨⟨hbegins', fun hg => absurd hg hend'⟩, hchildren'.expressible, ih hps⟩

/-- If a sequence does not end in a group, neither does any of its groups: it would be the last
element of its own sequence, and so on up to the outermost one. -/
theorem Expressible.settled (h : Expressible .autoClose ps) (hend : ¬ EndsInGroup ps) :
    Settled ps := by
  induction ps using sequenceInduction with
  | nil => exact settled_nil
  | comparison connector c ps ih =>
    rw [expressible_comparison_cons_iff] at h
    rw [settled_comparison_cons_iff]
    by_cases hps : ps = []
    · rw [hps]
      exact settled_nil
    · exact ih h ((endsInGroup_cons_iff hps).not.1 hend)
  | group connector children ps ihc ih =>
    obtain ⟨⟨hbegins, hlast⟩, hchildren, hps⟩ := expressible_group_cons_iff.1 h
    have hne : ps ≠ [] := by
      rintro rfl
      exact hend ⟨[], connector, children, rfl⟩
    have hinner : ¬ EndsInGroup children := fun hg => hne (hlast hg)
    exact settled_group_cons_iff.2 ⟨⟨hbegins, hinner⟩, ihc hchildren hinner,
      ih hps ((endsInGroup_cons_iff hne).not.1 hend)⟩

end Predicate

namespace Pending

open Predicate

/-! ## Markers in a row -/

/-- Ends the innermost group if told so. -/
def closeIf (closes : Bool) (s : Pending) : Option Pending := if closes then s.close? else some s

/-- Takes in what one node says. -/
def enter (s : Pending) (m : Marker) : Option Pending := (s.closeIf m.closes).map (·.place m)

/-- Takes in what some nodes say. -/
def run (s : Pending) : List Marker → Option Pending
  | [] => some s
  | m :: ms => (s.enter m).bind (·.run ms)

variable {aliases : Sorted String Nat} {position : Nat} {s s' s₀ : Pending} {closes : Bool}
  {connector : Option Connector} {children ps : List Predicate}

theorem run_append (s : Pending) (ms ms' : List Marker) :
    s.run (ms ++ ms') = (s.run ms).bind (·.run ms') := by
  induction ms generalizing s with
  | nil => rfl
  | cons m ms ih =>
    rw [List.cons_append, run, run, Option.bind_assoc]
    exact congrArg _ (funext fun s => ih s)

theorem closeAt_eq_ok_iff : s.closeAt position closes = .ok s' ↔ s.closeIf closes = some s' := by
  unfold closeAt closeIf
  cases closes with
  | false => simp
  | true => cases s.close? <;> simp

theorem closeAll_closeIf (h : s.closeIf closes = some s') : s'.closeAll = s.closeAll := by
  have hclose : s.closeAt 0 closes = .ok s' := closeAt_eq_ok_iff.2 h
  exact closeAll_closeAt hclose

theorem enter_eq_some_iff {m : Marker} :
    s.enter m = some s' ↔ ∃ s₀, s.closeIf m.closes = some s₀ ∧ s₀.place m = s' :=
  Option.map_eq_some_iff

/-- A node is taken in if it can be read, and what it says is taken in. -/
theorem step_eq_ok_iff_enter {node : Node} :
    s.step aliases position node = .ok s' ↔
      ∃ m, node.marker aliases = .ok m ∧ s.enter m = some s' := by
  rw [step_eq_ok_iff]
  constructor
  · rintro ⟨s₁, m, hclose, hm, rfl⟩
    have hcloses : m.closes = node.closes := by
      obtain ⟨connector, c, -, -, rfl⟩ := Node.marker_eq_ok_iff.1 hm
      rfl
    rw [closeAt_eq_ok_iff, ← hcloses] at hclose
    exact ⟨m, hm, enter_eq_some_iff.2 ⟨s₁, hclose, rfl⟩⟩
  · rintro ⟨m, hm, henter⟩
    obtain ⟨s₁, hclose, rfl⟩ := enter_eq_some_iff.1 henter
    have hcloses : m.closes = node.closes := by
      obtain ⟨connector, c, -, -, rfl⟩ := Node.marker_eq_ok_iff.1 hm
      rfl
    rw [hcloses] at hclose
    exact ⟨s₁, m, closeAt_eq_ok_iff.2 hclose, hm, rfl⟩

/-- Nodes are taken in if each of them can be read, and what they say is taken in. -/
theorem steps_eq_ok_iff {nodes : List Node} :
    s.steps aliases position nodes = .ok s' ↔
      ∃ ms, nodes.mapM (Node.marker aliases) = .ok ms ∧ s.run ms = some s' := by
  induction nodes generalizing position s with
  | nil => simp [steps, run]
  | cons node nodes ih =>
    rw [steps, bind_eq_ok_iff, List.mapM_cons]
    constructor
    · rintro ⟨s₁, hs₁, hs'⟩
      obtain ⟨m, hm, henter⟩ := step_eq_ok_iff_enter.1 hs₁
      obtain ⟨ms, hms, hrun⟩ := ih.1 hs'
      refine ⟨m :: ms, by rw [hm, hms]; rfl, ?_⟩
      rw [run, henter]
      exact hrun
    · rintro ⟨_, hread, hrun⟩
      obtain ⟨m, ms, hm, hms, rfl⟩ := bind_bind_pure_eq_ok_iff.1 hread
      obtain ⟨s₁, henter, hrun⟩ := Option.bind_eq_some_iff.1 hrun
      exact ⟨s₁, step_eq_ok_iff_enter.2 ⟨m, hm, henter⟩, ih.2 ⟨ms, hms, hrun⟩⟩

/-! ## The form of what has been taken in -/

/-- Sequences around a group in the making, from the inside out: all are settled, and all but the
outermost begin as groups do. -/
def Framed : List (List Predicate × Option Connector) → List Predicate → Prop
  | [], ps => Settled ps
  | (before, _) :: outer, ps => (Settled ps ∧ BeginsPlain ps) ∧ Framed outer before

/-- What holds between two nodes. -/
structure Sound (s : Pending) : Prop where
  framed : Framed s.outer s.current
  continues : ¬ EndsInGroup s.current

theorem Framed.settled {outer : List (List Predicate × Option Connector)} (h : Framed outer ps) :
    Settled ps := by
  cases outer with
  | nil => exact h
  | cons e outer => exact h.1.1

theorem Framed.begins {outer : List (List Predicate × Option Connector)} (h : Framed outer ps)
    (hne : outer ≠ []) : BeginsPlain ps := by
  cases outer with
  | nil => exact absurd rfl hne
  | cons e outer => exact h.1.2

theorem Framed.append {outer : List (List Predicate × Option Connector)} {qs : List Predicate}
    (h : Framed outer ps) (hqs : Settled qs) : Framed outer (ps ++ qs) := by
  cases outer with
  | nil => exact Settled.append h hqs
  | cons e outer => exact ⟨⟨h.1.1.append hqs, h.1.2.append qs⟩, h.2⟩

theorem sound_start : start.Sound :=
  ⟨settled_nil, by rw [not_endsInGroup_iff]; rfl⟩

/-- A group that is ended does not end in a group, so what is around it stays settled. -/
theorem Sound.closeIf (hs : s.Sound) (h : s.closeIf closes = some s') :
    Framed s'.outer s'.current := by
  obtain ⟨current, outer⟩ := s
  cases closes with
  | false =>
    cases h
    exact hs.framed
  | true =>
    cases outer with
    | nil => cases h
    | cons e outer =>
      cases h
      obtain ⟨⟨hcurrent, hbegins⟩, houter⟩ := hs.framed
      exact houter.append
        (settled_group_cons_iff.2 ⟨⟨hbegins, hs.continues⟩, hcurrent, settled_nil⟩)

theorem sound_place {m : Marker} (hs : Framed s.outer s.current) : (s.place m).Sound := by
  obtain ⟨opens, closes, connector, c⟩ := m
  have hsingle (connector : Option Connector) : Settled [.comparison connector c] :=
    settled_comparison_cons_iff.2 settled_nil
  cases opens with
  | true =>
    refine ⟨⟨⟨hsingle none, c, [], rfl⟩, hs⟩, ?_⟩
    rw [not_endsInGroup_iff]
    rfl
  | false => exact ⟨hs.append (hsingle connector), not_endsInGroup_concat_comparison⟩

theorem Sound.enter {m : Marker} (hs : s.Sound) (h : s.enter m = some s') : s'.Sound := by
  obtain ⟨s₀, hclose, rfl⟩ := enter_eq_some_iff.1 h
  exact sound_place (hs.closeIf hclose)

theorem Sound.run {ms : List Marker} (hs : s.Sound) (h : s.run ms = some s') : s'.Sound := by
  induction ms generalizing s with
  | nil =>
    cases h
    exact hs
  | cons m ms ih =>
    obtain ⟨s₁, henter, hrun⟩ := Option.bind_eq_some_iff.1 h
    exact ih (hs.enter henter) hrun

/-- To end all groups gives an expressible sequence if the innermost one is expressible, for it is
put behind what is settled. -/
theorem Framed.expressible_closeAll {outer : List (List Predicate × Option Connector)}
    {qs : List Predicate} (h : Framed outer ps) (hbegins : outer ≠ [] → BeginsPlain qs)
    (hqs : Expressible .autoClose qs) : Expressible .autoClose (closeAll ⟨qs, outer⟩) := by
  induction outer generalizing ps qs with
  | nil => exact hqs
  | cons e outer ih =>
    obtain ⟨before, connector⟩ := e
    have hbefore : Framed outer before := h.2
    have hclose : closeAll ⟨qs, (before, connector) :: outer⟩
        = closeAll ⟨before ++ [.group connector qs], outer⟩ := rfl
    rw [hclose]
    apply ih hbefore
    · intro hne
      exact (hbefore.begins hne).append _
    · exact hbefore.settled.expressible_concat (hbegins (List.cons_ne_nil _ _)) hqs

theorem Sound.expressible_closeAll (hs : s.Sound) : Expressible .autoClose s.closeAll :=
  hs.framed.expressible_closeAll hs.framed.begins hs.framed.settled.expressible

/-! ## Sequences built by their own markers -/

/-- The group that is opened behind a sequence, before anything is in it. -/
def opened (s : Pending) (connector : Option Connector) : Pending :=
  ⟨[], (s.current, connector) :: s.outer⟩

theorem run_comparison_cons (h : s.closeIf closes = some s₀) (c : Comparison) :
    s.run (markers closes (.comparison connector c :: ps))
      = (s₀.add (.comparison connector c)).run (markers false ps) := by
  have henter : s.enter ⟨false, closes, connector, c⟩ = some (s₀.add (.comparison connector c)) :=
    enter_eq_some_iff.2 ⟨s₀, h, rfl⟩
  show (s.enter ⟨false, closes, connector, c⟩).bind (·.run (markers false ps)) = _
  rw [henter]
  rfl

/-- To open a group with its first comparison leads to the same place as to put this comparison
into the group opened before. -/
theorem run_group_cons (h : s.closeIf closes = some s₀) (hbegins : BeginsPlain children) :
    s.run (markers closes (.group connector children :: ps))
      = ((s₀.opened connector).run (markers false children)).bind (·.run (markers true ps)) := by
  obtain ⟨c, rest, rfl⟩ := hbegins
  have henter : s.enter ⟨true, closes, connector, c⟩ = some (s₀.begin connector c) :=
    enter_eq_some_iff.2 ⟨s₀, h, rfl⟩
  rw [markers, run_append]
  show ((s.enter ⟨true, closes, connector, c⟩).bind (·.run (markers false rest))).bind _ = _
  rw [henter, run_comparison_cons rfl]
  rfl

/-- A settled sequence is built by its own markers, wherever it begins. What is in the making is
then as it was, but for a group that the sequence ends in. -/
theorem run_markers (hps : Settled ps) (h : s.closeIf closes = some s₀) :
    ∃ s', s.run (markers closes ps) = some s' ∧
      s'.closeIf (endsGroup closes ps) = some ⟨s₀.current ++ ps, s₀.outer⟩ := by
  induction ps using sequenceInduction generalizing s s₀ closes with
  | nil => exact ⟨s, rfl, by rw [List.append_nil]; exact h⟩
  | comparison connector c ps ih =>
    have hadd : (s₀.add (.comparison connector c)).closeIf false
        = some (s₀.add (.comparison connector c)) := rfl
    obtain ⟨s', hrun, hend⟩ := ih (settled_comparison_cons_iff.1 hps) hadd
    refine ⟨s', (run_comparison_cons h c).trans hrun, hend.trans ?_⟩
    show some (Pending.mk ((s₀.current ++ [_]) ++ ps) s₀.outer) = _
    rw [List.append_assoc]
    rfl
  | group connector children ps ihc ih =>
    obtain ⟨⟨hbegins, hend⟩, hchildren, hps⟩ := settled_group_cons_iff.1 hps
    have hopened : (s₀.opened connector).closeIf false = some (s₀.opened connector) := rfl
    obtain ⟨s₁, hrun₁, hend₁⟩ := ihc hchildren hopened
    -- The children do not end in a group, so they alone have been put into the opened one.
    rw [not_endsInGroup_iff.1 hend] at hend₁
    cases hend₁
    have hclose : closeIf true ⟨children, (s₀.opened connector).outer⟩
        = some ⟨s₀.current ++ [.group connector children], s₀.outer⟩ := rfl
    obtain ⟨s', hrun, hend'⟩ := ih hps hclose
    refine ⟨s', ?_, hend'.trans ?_⟩
    · rw [run_group_cons h hbegins, hrun₁]
      exact hrun
    · rw [List.append_assoc]
      rfl

/-- An expressible sequence is built by its own markers, up to the groups that it ends in. -/
theorem run_markers_closeAll (hps : Expressible .autoClose ps) (h : s.closeIf closes = some s₀) :
    ∃ s', s.run (markers closes ps) = some s' ∧
      s'.closeAll = closeAll ⟨s₀.current ++ ps, s₀.outer⟩ := by
  induction ps using sequenceInduction generalizing s s₀ closes with
  | nil =>
    refine ⟨s, rfl, ?_⟩
    rw [List.append_nil]
    exact (closeAll_closeIf h).symm
  | comparison connector c ps ih =>
    have hadd : (s₀.add (.comparison connector c)).closeIf false
        = some (s₀.add (.comparison connector c)) := rfl
    obtain ⟨s', hrun, hend⟩ := ih (expressible_comparison_cons_iff.1 hps) hadd
    refine ⟨s', (run_comparison_cons h c).trans hrun, hend.trans ?_⟩
    show closeAll ⟨(s₀.current ++ [_]) ++ ps, s₀.outer⟩ = _
    rw [List.append_assoc]
    rfl
  | group connector children ps ihc ih =>
    obtain ⟨⟨hbegins, hlast⟩, hchildren, hps⟩ := expressible_group_cons_iff.1 hps
    have hopened : (s₀.opened connector).closeIf false = some (s₀.opened connector) := rfl
    rw [run_group_cons h hbegins]
    by_cases hne : ps = []
    · -- The end of the list is the end of this group, too.
      obtain ⟨s₁, hrun₁, hend₁⟩ := ihc hchildren hopened
      rw [hne, hrun₁]
      exact ⟨s₁, rfl, hend₁⟩
    · have hend : ¬ EndsInGroup children := fun hg => hne (hlast hg)
      obtain ⟨s₁, hrun₁, hend₁⟩ := run_markers (hchildren.settled hend) hopened
      rw [not_endsInGroup_iff.1 hend] at hend₁
      cases hend₁
      have hclose : closeIf true ⟨children, (s₀.opened connector).outer⟩
          = some ⟨s₀.current ++ [.group connector children], s₀.outer⟩ := rfl
      obtain ⟨s', hrun, hend'⟩ := ih hps hclose
      rw [hrun₁]
      refine ⟨s', hrun, hend'.trans ?_⟩
      rw [List.append_assoc]
      rfl

end Pending

namespace Node

/-! ## Nodes for given markers -/

/-- The text of a connector in a node. -/
def connectorText : Option Connector → String
  | none => ""
  | some c => c.keyword

theorem readOptional_connectorText (connector : Option Connector) :
    Connector.readOptional (connectorText connector) = .ok connector := by
  rcases connector with _ | (_ | _) <;> rfl

variable {aliases : Sorted String Nat}

/-- A comparison that is read from some node is read from one with any marks and connector. -/
theorem exists_marker_eq {m : Marker}
    (h : ∃ node : Node, node.comparison aliases = .ok m.comparison) :
    ∃ node : Node, node.marker aliases = .ok m := by
  obtain ⟨node, hc⟩ := h
  let marked : Node :=
    { node with opens := m.opens, closes := m.closes, connector := connectorText m.connector }
  have hmarked : marked.comparison aliases = .ok m.comparison := hc
  exact ⟨marked, marker_eq_ok_iff.2
    ⟨m.connector, m.comparison, readOptional_connectorText m.connector, hmarked, rfl⟩⟩

theorem exists_mapM_marker {ms : List Marker}
    (h : ∀ m ∈ ms, ∃ node : Node, node.comparison aliases = .ok m.comparison) :
    ∃ nodes : List Node, nodes.mapM (marker aliases) = .ok ms := by
  induction ms with
  | nil => exact ⟨[], rfl⟩
  | cons m ms ih =>
    rw [List.forall_mem_cons] at h
    obtain ⟨node, hnode⟩ := exists_marker_eq h.1
    obtain ⟨nodes, hnodes⟩ := ih h.2
    exact ⟨node :: nodes, by rw [List.mapM_cons, hnode, hnodes]; rfl⟩

end Node

namespace Predicate

variable {policy : Policy} {aliases : Sorted String Nat} {nodes : List Node} {ps : List Predicate}

/-- Under either policy a tree is what becomes of all groups that the markers leave open. -/
theorem ofNodes_eq_ok_iff :
    ofNodes policy aliases nodes = .ok ps ↔
      ∃ ms s, nodes.mapM (Node.marker aliases) = .ok ms ∧ Pending.start.run ms = some s ∧
        (policy = .strict → s.outer = []) ∧ s.closeAll = ps := by
  have hfinish (s : Pending) : s.finish policy nodes.length = .ok ps ↔
      (policy = .strict → s.outer = []) ∧ s.closeAll = ps := by
    cases policy with
    | autoClose => simp [Pending.finish]
    | strict =>
      rw [Pending.finish_strict]
      simp [Pending.finish]
  rw [ofNodes, bind_eq_ok_iff]
  simp only [hfinish]
  constructor
  · rintro ⟨s, hs, hend⟩
    obtain ⟨ms, hms, hrun⟩ := Pending.steps_eq_ok_iff.1 hs
    exact ⟨ms, s, hms, hrun, hend⟩
  · rintro ⟨ms, s, hms, hrun, hend⟩
    exact ⟨s, Pending.steps_eq_ok_iff.2 ⟨ms, hms, hrun⟩, hend⟩

/-- Under either policy the tree of a node list is flattened to what the nodes say. -/
theorem mapM_marker_eq_flatten (h : ofNodes policy aliases nodes = .ok ps) :
    nodes.mapM (Node.marker aliases) = .ok (flatten ps) := by
  obtain ⟨ms, s, hms, hrun, -, rfl⟩ := ofNodes_eq_ok_iff.1 h
  have hs : Pending.start.steps aliases 0 nodes = .ok s := Pending.steps_eq_ok_iff.2 ⟨ms, hms, hrun⟩
  obtain ⟨ms', hms', hflat⟩ := Pending.flatten_steps Pending.ready_start hs
  rw [hms', hflat]
  rfl

theorem expressible_of_ofNodes (h : ofNodes policy aliases nodes = .ok ps) :
    Expressible policy ps := by
  obtain ⟨ms, s, -, hrun, hstrict, rfl⟩ := ofNodes_eq_ok_iff.1 h
  have hs := Pending.sound_start.run hrun
  cases policy with
  | autoClose => exact hs.expressible_closeAll
  | strict =>
    obtain ⟨current, outer⟩ := s
    obtain rfl : outer = [] := hstrict rfl
    exact expressible_strict_iff.2 ⟨hs.framed, hs.continues⟩

/-- The markers of an expressible sequence leave it behind. -/
theorem exists_run_flatten (h : Expressible policy ps) :
    ∃ s, Pending.start.run (flatten ps) = some s ∧ (policy = .strict → s.outer = []) ∧
      s.closeAll = ps := by
  have hstart : Pending.start.closeIf false = some Pending.start := rfl
  cases policy with
  | autoClose =>
    obtain ⟨s, hrun, hend⟩ := Pending.run_markers_closeAll h hstart
    refine ⟨s, hrun, ?_, hend⟩
    rintro ⟨⟩
  | strict =>
    obtain ⟨hps, hend⟩ := expressible_strict_iff.1 h
    obtain ⟨s, hrun, hs⟩ := Pending.run_markers hps hstart
    rw [not_endsInGroup_iff.1 hend] at hs
    cases hs
    exact ⟨_, hrun, fun _ => rfl, rfl⟩

/-- The trees of node lists under a policy are the sequences of its form whose comparisons can be
read from nodes; each of them has a node list, and no list has another tree. -/
theorem exists_ofNodes_iff (policy : Policy) (aliases : Sorted String Nat) (ps : List Predicate) :
    (∃ nodes, ofNodes policy aliases nodes = .ok ps) ↔
      Expressible policy ps ∧
        ∀ c ∈ comparisons ps, ∃ node : Node, node.comparison aliases = .ok c := by
  constructor
  · rintro ⟨nodes, h⟩
    refine ⟨expressible_of_ofNodes h, fun c hc => ?_⟩
    have hread := mapM_comparison_of_mapM_marker (mapM_marker_eq_flatten h)
    rw [flatten, map_comparison_markers] at hread
    obtain ⟨node, -, hnode⟩ := exists_of_mem_of_mapM hread hc
    exact ⟨node, hnode⟩
  · rintro ⟨h, hread⟩
    obtain ⟨s, hrun, hend⟩ := exists_run_flatten h
    have hmarkers : ∀ m ∈ flatten ps,
        ∃ node : Node, node.comparison aliases = .ok m.comparison := by
      intro m hm
      apply hread
      rw [← map_comparison_markers false]
      exact List.mem_map_of_mem hm
    obtain ⟨nodes, hnodes⟩ := Node.exists_mapM_marker hmarkers
    exact ⟨nodes, ofNodes_eq_ok_iff.2 ⟨_, s, hnodes, hrun, hend⟩⟩

end Predicate

end QueryCompiler
