import MarkupForest.Proofs.Forest.Run
import MarkupForest.Proofs.Forest.Subtree
import MarkupForest.Tree.Trace

/-!
# Walks moment by moment

A walker that leaves the decision where to go to the usual rule acts only when the walk enters and
leaves nodes. These moments are known before the walk begins: they are the trace of the tree. The
walk does nothing but go through the trace and act at each moment, until it is stopped.

A walker that logs the moments at which it acts therefore ends with the trace in its log, cut off
right after the first moment at which it stops the walk. No node is left after that, and no other
one is entered.

## Main definitions

* `Tree.trace` and `Forest.trace`: the moments of a walk that is not stopped;
* `Moment.Nested`: every node that is entered is left, and what is entered in between is left in
  between;
* `Walker.follow`: acting at some moments, one after the other;
* `Walker.Logs`: a walker logs the moments at which it acts and stops at given ones.

## Main results

* `Tree.nested_trace`: a trace is nested;
* `Tree.walk_eq_follow`: a walk follows the trace of the tree;
* `Walker.Logs.follow`: what is in the log after some moments, and whether the walk is stopped;
* `Forest.walks_of_reachable`: both for the nodes of reachable forests.
-/

namespace MarkupForest

/-! ## Traces -/

/-- Every node that is entered is left again, and all nodes entered in between are left in between.
-/
inductive Moment.Nested : List Moment → Prop
  /-- Nothing happens. -/
  | nil : Nested []
  /-- A node is entered and left, with moments in between and after it. -/
  | node (n : Node) {between after : List Moment} (hbetween : Nested between)
      (hafter : Nested after) : Nested (.enter n :: between ++ .leave n :: after)

theorem Moment.Nested.append {ms ms' : List Moment} (h : Nested ms) (h' : Nested ms') :
    Nested (ms ++ ms') := by
  induction h with
  | nil => exact h'
  | node n hbetween _ _ ih =>
    rw [List.append_assoc, List.cons_append]
    exact .node n hbetween ih

namespace Tree

/-- The moments of a walk that goes below every node that is not text and is not stopped. -/
def trace (t : Tree) : List Moment :=
  t.fold fun n parts =>
    .enter n :: (if n.kind.tag = .text then [] else parts.flatten) ++ [.leave n]

theorem trace_mk (n : Node) (ts : List Tree) :
    (mk n ts).trace =
      .enter n :: (if n.kind.tag = .text then [] else ts.flatMap trace) ++ [.leave n] :=
  fold_mk _ n ts

theorem nested_traces {ts : List Tree} (h : ∀ t ∈ ts, Moment.Nested t.trace) :
    Moment.Nested (ts.flatMap trace) := by
  induction ts with
  | nil => exact .nil
  | cons t ts ih =>
    obtain ⟨ht, hts⟩ := List.forall_mem_cons.1 h
    exact ht.append (ih hts)

/-- In the trace of a tree, every node that is entered is left, with all moments of the nodes below
it in between. -/
theorem nested_trace (t : Tree) : Moment.Nested t.trace := by
  induction t with
  | mk n ts ih =>
    rw [trace_mk]
    refine .node n ?_ .nil
    split
    · exact .nil
    · exact nested_traces ih

end Tree

/-- In a nested list of moments no node is asked about. -/
theorem Moment.Nested.ask_not_mem {ms : List Moment} (h : Nested ms) (n : Node) : .ask n ∉ ms := by
  induction h with
  | nil => exact List.not_mem_nil
  | node => simp_all

/-! ## Acting moment by moment -/

variable {σ : Type} {w : Walker σ} {log : σ → List Moment} {stopAt : Moment → Bool}

theorem Flow.andThen_assoc (a : Flow σ) (k l : σ → Flow σ) :
    (a.andThen k).andThen l = a.andThen fun s => (k s).andThen l := by
  cases a <;> rfl

theorem Flow.andThen_go (a : Flow σ) : a.andThen .go = a := by
  cases a <;> rfl

namespace Walker

/-- What is done at a moment, if questions are left to the usual rule. -/
def attend (w : Walker σ) : Moment → σ → Flow σ
  | .enter n => w.enter n
  | .ask _ => .go
  | .leave n => w.leave n

/-- What is done at some moments, one after the other, until the walk is stopped. -/
def follow (w : Walker σ) : List Moment → σ → Flow σ
  | [], s => .go s
  | m :: ms, s => (w.attend m s).andThen (w.follow ms)

theorem follow_append (w : Walker σ) (ms ms' : List Moment) (s : σ) :
    w.follow (ms ++ ms') s = (w.follow ms s).andThen (w.follow ms') := by
  induction ms generalizing s with
  | nil => rfl
  | cons m ms ih =>
    rw [List.cons_append, follow, follow, Flow.andThen_assoc]
    exact congrArg _ (funext ih)

theorem follow_singleton (w : Walker σ) (m : Moment) (s : σ) : w.follow [m] s = w.attend m s :=
  Flow.andThen_go _

end Walker

namespace Tree

theorem walkAll_eq_follow {ts : List Tree} (h : ∀ t ∈ ts, ∀ s, t.walk w s = w.follow t.trace s)
    (s : σ) : walkAll w ts s = w.follow (ts.flatMap trace) s := by
  induction ts generalizing s with
  | nil => rfl
  | cons t ts ih =>
    obtain ⟨ht, hts⟩ := List.forall_mem_cons.1 h
    rw [walkAll, List.flatMap_cons, Walker.follow_append, ht]
    exact congrArg _ (funext (ih hts))

/-- A walk that leaves the decision where to go to the usual rule follows the trace of the tree. -/
theorem walk_eq_follow (hw : w.decide = Walker.belowAllButText) (t : Tree) (s : σ) :
    t.walk w s = w.follow t.trace s := by
  induction t generalizing s with
  | mk n ts ih =>
    have hleave : w.follow [.leave n] = w.leave n := funext fun s => w.follow_singleton _ s
    rw [walk, trace_mk, List.cons_append, Walker.follow, Walker.attend]
    refine congrArg _ (funext fun s => ?_)
    -- between entering and leaving the node the walk goes through the traces of the branches
    rw [hw, Walker.belowAllButText, Walker.follow_append, hleave]
    by_cases htext : n.kind.tag = .text
    · rw [if_pos htext, if_pos htext, Walker.follow, Flow.andThen]
    · rw [if_neg htext, if_neg htext]
      exact congrArg (Flow.andThen · (w.leave n)) (walkAll_eq_follow ih s)

end Tree

/-! ## Logs -/

/-- The walker logs each moment in which it enters or leaves a node, stops the walk at the given
moments, and leaves the decision where to go to the usual rule. Its state may hold more than the
log. -/
structure Walker.Logs (w : Walker σ) (log : σ → List Moment) (stopAt : Moment → Bool) : Prop where
  /-- Where to go is left to the usual rule. -/
  decide_eq : w.decide = belowAllButText
  /-- Entering a node is logged, and stops the walk if that is a moment to stop. -/
  enter : ∀ n s, log (w.enter n s).state = log s ++ [.enter n] ∧
    (w.enter n s).stopped = stopAt (.enter n)
  /-- Leaving a node is logged, and stops the walk if that is a moment to stop. -/
  leave : ∀ n s, log (w.leave n s).state = log s ++ [.leave n] ∧
    (w.leave n s).stopped = stopAt (.leave n)

/-- The log has grown by the given moments up to and including the first one at which to stop, and
the walk has been stopped exactly if there is one. -/
structure Flow.LogsUntil (log : σ → List Moment) (stopAt : Moment → Bool) (s : σ)
    (moments : List Moment) (out : Flow σ) : Prop where
  /-- What has been logged. -/
  log_eq : log out.state = log s ++ moments.take (moments.findIdx stopAt + 1)
  /-- Whether the walk has been stopped. -/
  stopped_iff : out.stopped = true ↔ ∃ m ∈ moments, stopAt m = true

/-- If there is no moment to stop at, then all moments are logged. -/
theorem Flow.LogsUntil.log_eq_of_forall {s : σ} {moments : List Moment} {out : Flow σ}
    (h : out.LogsUntil log stopAt s moments) (hgo : ∀ m ∈ moments, stopAt m = false) :
    log out.state = log s ++ moments := by
  rw [h.log_eq, List.findIdx_eq_length_of_false hgo, List.take_of_length_le (Nat.le_succ _)]

namespace Walker.Logs

theorem attend (h : w.Logs log stopAt) {m : Moment} (hm : ∀ n, m ≠ .ask n) (s : σ) :
    log (w.attend m s).state = log s ++ [m] ∧ (w.attend m s).stopped = stopAt m := by
  cases m with
  | enter n => exact h.enter n s
  | ask n => exact absurd rfl (hm n)
  | leave n => exact h.leave n s

/-- A walker that logs the moments at which it acts logs them up to and including the first one at
which it stops. -/
theorem follow (h : w.Logs log stopAt) {ms : List Moment} (hms : ∀ n, .ask n ∉ ms) (s : σ) :
    (w.follow ms s).LogsUntil log stopAt s ms := by
  induction ms generalizing s with
  | nil => exact ⟨by simp [Walker.follow, Flow.state], by simp [Walker.follow, Flow.stopped]⟩
  | cons m ms ih =>
    simp only [List.mem_cons, not_or] at hms
    obtain ⟨hlog, hstopped⟩ := h.attend (fun n => Ne.symm (hms n).1) s
    rw [Walker.follow]
    cases hflow : w.attend m s with
    | stop s' =>
      -- this is the first moment to stop at, and nothing comes after it
      rw [hflow] at hlog hstopped
      have hm : stopAt m = true := hstopped.symm
      exact ⟨by simpa [Flow.andThen, List.findIdx_cons, hm] using hlog,
        by simp [Flow.andThen, Flow.stopped, hm]⟩
    | go s' =>
      rw [hflow] at hlog hstopped
      have hm : stopAt m = false := hstopped.symm
      -- the walk goes on, and what it logs from here comes behind this moment
      obtain ⟨hrest, hiff⟩ := ih (fun n => (hms n).2) s'
      change log s' = log s ++ [m] at hlog
      refine ⟨?_, ?_⟩
      · rw [Flow.andThen, hrest, hlog, List.findIdx_cons, hm, List.append_assoc]
        rfl
      · simp [Flow.andThen, hiff, hm]

/-- A walk with such a walker, through a tree and below its top. -/
theorem walk (h : w.Logs log stopAt) (t : Tree) (s : σ) :
    (t.walk w s).LogsUntil log stopAt s t.trace := by
  rw [Tree.walk_eq_follow h.decide_eq]
  exact h.follow t.nested_trace.ask_not_mem s

theorem walkBelow (h : w.Logs log stopAt) (t : Tree) (s : σ) :
    (t.walkBelow w s).LogsUntil log stopAt s (t.children.flatMap Tree.trace) := by
  rw [Tree.walkBelow, Tree.walkAll_eq_follow fun u _ => Tree.walk_eq_follow h.decide_eq u]
  exact h.follow (Tree.nested_traces fun u _ => u.nested_trace).ask_not_mem s

end Walker.Logs

/-- The walker that writes down where it enters and leaves nodes logs these moments. -/
theorem boundaryTracer_logs (stopAt : Moment → Bool) : (boundaryTracer stopAt).Logs id stopAt where
  decide_eq := rfl
  enter n s := by
    cases hstop : stopAt (.enter n) <;> simp [boundaryTracer, note, hstop, Flow.state, Flow.stopped]
  leave n s := by
    cases hstop : stopAt (.leave n) <;> simp [boundaryTracer, note, hstop, Flow.state, Flow.stopped]

/-! ## Walks through forests -/

namespace Forest

variable {f : Forest} {n : NodeId} {kind : Kind} {t : Tree}

/-- The moments of a walk from a node that is not stopped. -/
def trace (f : Forest) (n : NodeId) : List Moment :=
  ((f.tree? n).map Tree.trace).getD []

theorem trace_of_tree? (ht : f.tree? n = some t) : f.trace n = t.trace := by
  rw [trace, ht, Option.map_some, Option.getD_some]

theorem flatMap_trace (f : Forest) (ns : List NodeId) :
    (ns.filterMap f.tree?).flatMap Tree.trace = ns.flatMap f.trace := by
  induction ns with
  | nil => rfl
  | cons n ns ih =>
    rw [List.flatMap_cons, ← ih]
    cases ht : f.tree? n with
    | none => rw [List.filterMap_cons_none ht, trace, ht]; rfl
    | some t => rw [List.filterMap_cons_some ht, List.flatMap_cons, trace_of_tree? ht]

namespace WellFormed

/-- A walk from a node enters it, goes through its children in order unless it is text, and leaves
it. -/
theorem trace_eq (hf : f.WellFormed) (hkind : f.kind? n = some kind) :
    f.trace n =
      .enter ⟨n, kind, f.line n⟩ ::
        (if kind.tag = .text then [] else (f.children n).flatMap f.trace) ++
        [.leave ⟨n, kind, f.line n⟩] := by
  have ht := hf.tree?_eq n
  rw [hkind, Option.map_some] at ht
  rw [trace_of_tree? ht, Tree.trace_mk, flatMap_trace]

theorem flatMap_trace_children (hf : f.WellFormed) (ht : f.tree? n = some t) :
    t.children.flatMap Tree.trace = (f.children n).flatMap f.trace := by
  rw [hf.tree?_eq] at ht
  obtain ⟨kind, -, rfl⟩ := Option.map_eq_some_iff.1 ht
  exact flatMap_trace f _

end WellFormed

/-- In a reachable forest, the trace of a node is to enter it, then the traces of its children in
order, none if it is text, and then to leave it. A walker that acts only when it enters and leaves
nodes, logs this, and stops the walk at arbitrary moments, logs the trace of the node up to and
including the first moment at which it stops, and the walk is stopped exactly if there is such a
moment in the trace. Below the node the same holds with the traces of the children. -/
theorem walks_of_reachable (hf : f.Reachable) :
    (∀ n kind, f.kind? n = some kind →
      f.trace n =
        .enter ⟨n, kind, f.line n⟩ ::
          (if kind.tag = .text then [] else (f.children n).flatMap f.trace) ++
          [.leave ⟨n, kind, f.line n⟩]) ∧
    ∀ n, f.contains n = true → ∃ t, f.tree? n = some t ∧
      Moment.Nested (f.trace n) ∧ Moment.Nested ((f.children n).flatMap f.trace) ∧
      ∀ (σ : Type) (w : Walker σ) (log : σ → List Moment) (stopAt : Moment → Bool),
        w.Logs log stopAt → ∀ s,
          (t.walk w s).LogsUntil log stopAt s (f.trace n) ∧
          (t.walkBelow w s).LogsUntil log stopAt s ((f.children n).flatMap f.trace) ∧
          ((∀ m ∈ f.trace n, stopAt m = false) →
            log (t.walk w s).state = log s ++ f.trace n) ∧
          ((∀ m ∈ (f.children n).flatMap f.trace, stopAt m = false) →
            log (t.walkBelow w s).state = log s ++ (f.children n).flatMap f.trace) := by
  have hwf := hf.wellFormed
  refine ⟨fun n kind hkind => hwf.trace_eq hkind, fun n hn => ?_⟩
  obtain ⟨t, ht⟩ := hwf.exists_tree? hn
  -- from here on the forest is out of play: all is about the tree of the node
  rw [trace_of_tree? ht, ← hwf.flatMap_trace_children ht]
  refine ⟨t, ht, t.nested_trace, Tree.nested_traces fun u _ => u.nested_trace, ?_⟩
  intro σ w log stopAt hw s
  have hwalk := hw.walk t s
  have hbelow := hw.walkBelow t s
  exact ⟨hwalk, hbelow, hwalk.log_eq_of_forall, hbelow.log_eq_of_forall⟩

/-- What is below a text node is not walked through from above, only from the node itself. -/
theorem walks_of_reachable_sampleRun :
    (∃ t, (empty.runAll sampleRun).tree? ⟨3⟩ = some t ∧
      (t.walk (boundaryTracer (· = .leave ⟨⟨0⟩, .text "a", 1⟩)) []).state =
        [.enter ⟨⟨3⟩, .page ⟨.article "P", 1, 100⟩, 0⟩, .enter ⟨⟨0⟩, .text "a", 1⟩,
          .leave ⟨⟨0⟩, .text "a", 1⟩] ∧
      (t.walk (boundaryTracer (· = .leave ⟨⟨0⟩, .text "a", 1⟩)) []).stopped = true) ∧
    ∃ t, (empty.runAll sampleRun).tree? ⟨0⟩ = some t ∧
      (t.walkBelow (boundaryTracer fun _ => false) []).state =
        [.enter ⟨⟨2⟩, .tableCell, 1⟩, .enter ⟨⟨1⟩, .text "b", 2⟩, .leave ⟨⟨1⟩, .text "b", 2⟩,
          .leave ⟨⟨2⟩, .tableCell, 1⟩] := by
  have hreach : (empty.runAll sampleRun).Reachable := .runAll .empty sampleRun (by decide +kernel)
  have htrace : (empty.runAll sampleRun).trace ⟨3⟩ =
      [.enter ⟨⟨3⟩, .page ⟨.article "P", 1, 100⟩, 0⟩, .enter ⟨⟨0⟩, .text "a", 1⟩,
        .leave ⟨⟨0⟩, .text "a", 1⟩, .leave ⟨⟨3⟩, .page ⟨.article "P", 1, 100⟩, 0⟩] := by
    decide +kernel
  have hbelow : ((empty.runAll sampleRun).children ⟨0⟩).flatMap (empty.runAll sampleRun).trace =
      [.enter ⟨⟨2⟩, .tableCell, 1⟩, .enter ⟨⟨1⟩, .text "b", 2⟩, .leave ⟨⟨1⟩, .text "b", 2⟩,
        .leave ⟨⟨2⟩, .tableCell, 1⟩] := by
    decide +kernel
  obtain ⟨-, hwalks⟩ := walks_of_reachable hreach
  obtain ⟨t, ht, -, -, hlog⟩ := hwalks ⟨3⟩ (by decide +kernel)
  obtain ⟨u, hu, -, -, hlog'⟩ := hwalks ⟨0⟩ (by decide +kernel)
  obtain ⟨⟨hstate, hstopped⟩, -⟩ := hlog _ _ _ _ (boundaryTracer_logs _) []
  obtain ⟨-, ⟨hstate', -⟩, -⟩ := hlog' _ _ _ _ (boundaryTracer_logs fun _ => false) []
  rw [htrace] at hstate hstopped
  rw [hbelow] at hstate'
  exact ⟨⟨t, ht, hstate, hstopped.2 (by simp)⟩, u, hu, hstate'⟩

end Forest

end MarkupForest
