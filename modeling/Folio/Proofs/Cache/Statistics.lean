import Folio.Cache.Report
import Folio.Proofs.Cache.Adding

/-! # What the statistics of a cache count

Look-ups and evictions are counted where they happen, and nothing takes them back, so the counts
are those of the run.  Thrashing is different: an object that is added counts as soon as it is
entered, and it can still be turned away.  Then its entry is taken back and its count is not,
and it has left the window of recent evictions as well.  **`Logged.counts_exact`** says what each
count comes to in every run, and that the additions which are turned away make the only difference.

Operations are kept as `Deed`s, each with the cache and the workspace that it found, so that a count
is a number of deeds.  One deed is `counts_deed`; a run is a list of them (`Logged`).
-/
namespace Folio.Cache

variable {σ α : Type}

/-! ## Gains -/

/-- The counts of `a'` are so much higher than those of `a`. -/
structure Accounting.Gains (a : Accounting) (hits misses evictions thrashing : Nat)
    (a' : Accounting) : Prop where
  hits_eq : a'.hits = a.hits + hits
  misses_eq : a'.misses = a.misses + misses
  evictions_eq : a'.evictions = a.evictions + evictions
  thrashing_eq : a'.thrashing = a.thrashing + thrashing

section Gains
variable {a a₁ a' : Accounting}

theorem Accounting.gains_nothing (a : Accounting) : a.Gains 0 0 0 0 a := ⟨rfl, rfl, rfl, rfl⟩

/-- The window is no count. -/
theorem Accounting.gains_resetWindow (a : Accounting) (limit : Nat) :
    a.Gains 0 0 0 0 (a.resetWindow limit) := ⟨rfl, rfl, rfl, rfl⟩

theorem Accounting.gains_eviction (a : Accounting) (id : ObjectId) :
    a.Gains 0 0 1 0 (a.recordEviction id) := ⟨rfl, rfl, rfl, rfl⟩

/-- Who is not in the window is entered without a trace in the accounts. -/
theorem Accounting.recordInsert_of_not_mem {id : ObjectId} (hmem : id ∉ a.window.members) :
    a.recordInsert id = a := by
  unfold recordInsert EvictionWindow.take
  rw [if_neg hmem]

theorem Accounting.gains_insert (a : Accounting) (id : ObjectId) :
    a.Gains 0 0 0 (if id ∈ a.window.members then 1 else 0) (a.recordInsert id) := by
  by_cases hmem : id ∈ a.window.members
  · rw [if_pos hmem]
    unfold recordInsert EvictionWindow.take
    rw [if_pos hmem]
    exact ⟨rfl, rfl, rfl, rfl⟩
  · rw [if_neg hmem, recordInsert_of_not_mem hmem]
    exact a.gains_nothing

theorem Accounting.Gains.trans {h m e t h' m' e' t' : Nat} (g₁ : a.Gains h m e t a₁)
    (g₂ : a₁.Gains h' m' e' t' a') : a.Gains (h + h') (m + m') (e + e') (t + t') a' where
  hits_eq := by rw [g₂.hits_eq, g₁.hits_eq, Nat.add_assoc]
  misses_eq := by rw [g₂.misses_eq, g₁.misses_eq, Nat.add_assoc]
  evictions_eq := by rw [g₂.evictions_eq, g₁.evictions_eq, Nat.add_assoc]
  thrashing_eq := by rw [g₂.thrashing_eq, g₁.thrashing_eq, Nat.add_assoc]

end Gains

/-! ## Looking up, growing and evicting -/

/-- A look-up counts as a hit or as a miss. -/
theorem gains_get (c : Cache σ α) (id : ObjectId) :
    c.accounting.Gains (if (c.get id).1.isSome then 1 else 0) (if (c.get id).1.isNone then 1 else 0)
      0 0 (c.get id).2.accounting := by
  unfold Cache.get
  cases hget : c.entries.get? id with
  | none => exact ⟨rfl, rfl, rfl, rfl⟩
  | some h => exact ⟨rfl, rfl, rfl, rfl⟩

theorem gains_grow (c : Cache σ α) (w : Workspace σ α) :
    c.accounting.Gains 0 0 0 0 (c.grow w).2.1.accounting := by
  rcases grow_cases c w with hgrow | ⟨n, b, -, -, -, -, hgrow⟩
  · rw [hgrow]
    exact c.accounting.gains_nothing
  · rw [hgrow]
    exact c.accounting.gains_resetWindow n

variable [Cacheable α]

/-- A pass counts what leaves by it. -/
theorem gains_evictionPass (c : Cache σ α) (exclude : Option ObjectId) (w : Workspace σ α) :
    c.accounting.Gains 0 0 (c.evictionPass exclude w).left.length 0
      (c.evictionPass exclude w).cache.accounting := by
  rcases evictionPass_cases c exclude w with ⟨w', -, hpass⟩ | ⟨id, h, w', -, -, hpass⟩
  · rw [hpass]
    exact c.accounting.gains_nothing
  · rw [hpass]
    exact c.accounting.gains_eviction id

theorem gains_evictUpTo (c : Cache σ α) (w : Workspace σ α) (count : Nat) :
    c.accounting.Gains 0 0 (c.evictUpTo w count).left.length 0
      (c.evictUpTo w count).cache.accounting := by
  induction count generalizing c w with
  | zero => exact c.accounting.gains_nothing
  | succ count ih =>
    have hpass := gains_evictionPass c none w
    unfold evictUpTo
    rcases evictionPass_cases c none w with ⟨w', -, hcase⟩ | ⟨id, h, w', -, -, hcase⟩
    · simp only [hcase]
      exact c.accounting.gains_nothing
    · rw [hcase] at hpass
      simp only [hcase, List.length_append]
      exact hpass.trans (ih _ _)

/-- **Making room counts the pass that it runs**, and nothing when the new object goes again. -/
theorem gains_makeRoom (c : Cache σ α) (id : ObjectId) (h : Handle) (w : Workspace σ α) :
    c.accounting.Gains 0 0 (c.evictionPass (some id) w).left.length 0
      (c.makeRoom id h w).cache.accounting := by
  have hpass := gains_evictionPass c (some id) w
  unfold makeRoom
  rcases evictionPass_cases c (some id) w with ⟨w', -, hcase⟩ | ⟨k, g, w', -, -, hcase⟩
  · simp only [hcase]
    rcases grow_cases c w' with hgrow | ⟨n, b, -, -, -, -, hgrow⟩
    · rw [hgrow]
      exact c.accounting.gains_nothing
    · rw [hgrow]
      exact c.accounting.gains_resetWindow n
  · rw [hcase] at hpass
    simp only [hcase]
    split
    · exact hpass.trans (gains_grow _ w')
    · exact hpass

/-! ## Deeds -/

/-- One operation, with the cache and the workspace that it found. -/
structure Deed (σ α : Type) where
  cache : Cache σ α
  workspace : Workspace σ α
  operation : Operation

namespace Deed

/-- The cache and the workspace after it. -/
def after (d : Deed σ α) : Cache σ α × Workspace σ α := d.cache.perform d.workspace d.operation

omit [Cacheable α] in
/-- An object was looked up and found. -/
def finds (d : Deed σ α) : Bool :=
  match d.operation with
  | .get id => (d.cache.get id).1.isSome
  | _ => false

omit [Cacheable α] in
/-- An object was looked up in vain. -/
def misses (d : Deed σ α) : Bool :=
  match d.operation with
  | .get id => (d.cache.get id).1.isNone
  | _ => false

/-- Those who left through eviction passes. -/
def evicted (d : Deed σ α) : List Handle :=
  (d.cache.passes d.workspace d.operation).flatMap (·.left)

/-- The answer to an addition. -/
def answer? (d : Deed σ α) : Option (Except Error Added) :=
  match d.operation with
  | .add h refCount => some (d.cache.add h refCount d.workspace).value
  | _ => none

/-- An object was added whose identity was in the window of recent evictions. -/
def revisits (d : Deed σ α) : Bool :=
  match d.operation with
  | .add h _ => (d.workspace.identity? h).any (· ∈ d.cache.accounting.window.members)
  | _ => false

/-- An object came back into the cache shortly after it was evicted. -/
def returns (d : Deed σ α) : Bool :=
  match d.answer? with
  | some (.ok .cached) => d.revisits
  | _ => false

/-- An object that had been evicted shortly before was turned away. -/
def bounces (d : Deed σ α) : Bool :=
  match d.answer? with
  | some (.error _) => d.revisits
  | _ => false

/-- An object that was in the window counts as thrashing when it is added, whether it stays or is
turned away. -/
theorem counts_entered {d : Deed σ α} {id : ObjectId} {h : Handle} {refCount : UInt32}
    (hop : d.operation = .add h refCount) (hid : d.workspace.identity? h = some id)
    (hanswer : d.answer? = some (.ok .cached) ∨ ∃ e, d.answer? = some (.error e)) :
    (if id ∈ d.cache.accounting.window.members then 1 else 0) =
      [d].countP returns + [d].countP bounces := by
  have hrevisits : d.revisits = decide (id ∈ d.cache.accounting.window.members) := by
    simp only [revisits, hop, hid, Option.any_some]
  rcases hanswer with hanswer | ⟨e, hanswer⟩ <;>
    simp [returns, bounces, hanswer, hrevisits, List.countP_cons]

/-- Every other deed leaves thrashing alone. -/
theorem counts_other {d : Deed σ α}
    (hanswer : d.answer? = none ∨ d.answer? = some (.ok .replaced) ∨
      d.answer? = some (.ok .notCached)) :
    [d].countP returns + [d].countP bounces = 0 := by
  rcases hanswer with hanswer | hanswer | hanswer <;> simp [returns, bounces, hanswer]

/-- **What one addition counts.** -/
theorem gains_add (c : Cache σ α) (h : Handle) (refCount : UInt32) (w : Workspace σ α) :
    c.accounting.Gains 0 0 (evicted ⟨c, w, .add h refCount⟩).length
      ([⟨c, w, .add h refCount⟩].countP returns + [⟨c, w, .add h refCount⟩].countP bounces)
      (c.add h refCount w).cache.accounting := by
  rcases add_cases c h refCount w with ⟨hout, hadd⟩ | ⟨id, w', hop, hid, rfl, hadd⟩
  · have hpasses : c.passes w (.add h refCount) = [] := by
      rcases hout with hout | hout <;> simp [passes, hout]
    rw [counts_other (Or.inr (Or.inr (by simp [answer?, hadd])))]
    simp only [evicted, hpasses, hadd]
    exact c.accounting.gains_nothing
  rcases hadd with ⟨previous, hold, hadd⟩ | ⟨hnew, ⟨hsize, hadd⟩ | ⟨hsize, hadd⟩⟩
  · rw [counts_other (Or.inr (Or.inl (by simp [answer?, hadd, replace])))]
    simp only [evicted, passes, hop, hid, hold, Option.isSome_some, true_or, if_true, hadd]
    exact c.accounting.gains_nothing
  · rw [← counts_entered rfl hid (Or.inl (by simp [answer?, hadd]))]
    simp only [evicted, passes, hop, hid, hsize, or_true, if_true, hadd]
    exact c.accounting.gains_insert id
  -- the object counts when it is entered, before it is known whether there is room for it
  · have hvalue : (c.add h refCount w).value = .ok .cached ∨
        ∃ e, (c.add h refCount w).value = .error e := by
      have hin : (c.entered id h).entries.get? id = some h := (enters_entered c id h).get?_self
      rw [hadd]
      exact (departs_makeRoom hin _).2.imp And.left And.left
    have hentered := c.accounting.gains_insert id
    rw [counts_entered (d := ⟨c, w, .add h refCount⟩) rfl hid
      (hvalue.imp (congrArg some) (Exists.imp fun _ => congrArg some))] at hentered
    have hroom := hentered.trans
      (gains_makeRoom (c.entered id h) id h (w.modify h ({ · with refCount })))
    rw [hadd]
    simpa [evicted, passes, hop, hid, hnew, Nat.not_le.2 hsize] using hroom

end Deed

/-- **What one change of capacity counts.** -/
theorem gains_resize (c : Cache σ α) (capacity : Nat) (w : Workspace σ α) :
    c.accounting.Gains 0 0 ((c.passes w (.resize capacity)).flatMap (·.left)).length 0
      (c.resize capacity w).cache.accounting := by
  simp only [passes, resize]
  by_cases hle : c.capacity ≤ capacity
  · rw [if_pos hle, if_pos hle]
    rcases enlarge_cases c capacity w with ⟨e, henlarge⟩ | ⟨b, henlarge⟩
    · rw [henlarge]
      exact c.accounting.gains_nothing
    · rw [henlarge]
      exact c.accounting.gains_resetWindow capacity
  · rw [if_neg hle, if_neg hle, ← left_evictUpTo]
    exact (gains_evictUpTo c w _).trans (Accounting.gains_resetWindow _ _)

/-- **What one operation counts.** -/
theorem Deed.gains_after (d : Deed σ α) :
    d.cache.accounting.Gains ([d].countP finds) ([d].countP misses) d.evicted.length
      ([d].countP returns + [d].countP bounces) d.after.1.accounting := by
  obtain ⟨c, w, op⟩ := d
  cases op with
  | add h refCount => exact gains_add c h refCount w
  | resize capacity => exact gains_resize c capacity w
  | evict =>
    have hpass := gains_evictionPass c none w
    rw [← List.append_nil (c.evictionPass none w).left] at hpass
    exact hpass
  | setOperational operational => exact c.accounting.gains_nothing
  | get id =>
    simp only [List.countP_singleton]
    exact gains_get c id
  | remove id =>
    simp only [after, perform, Cache.remove]
    split
    · exact c.accounting.gains_nothing
    · exact c.accounting.gains_nothing

/-! ## Additions that are taken back -/

/-- **An object that is turned away leaves everything that is told of the cache as it was, and the
window too, exactly if it was not in the window.** -/
theorem stats_add_error {c : Cache σ α} {h : Handle} {refCount : UInt32} {w : Workspace σ α}
    {e : Error} (herror : (c.add h refCount w).value = .error e) :
    (stats (c.add h refCount w).cache = stats c ∧
        (c.add h refCount w).cache.accounting.window = c.accounting.window) ↔
      Deed.revisits ⟨c, w, .add h refCount⟩ = false := by
  obtain ⟨id, hid, hnew, -, hcache⟩ := add_of_error herror
  have hrevisits : Deed.revisits ⟨c, w, .add h refCount⟩ = false ↔
      id ∉ c.accounting.window.members := by
    simp only [Deed.revisits, hid, Option.any_some, decide_eq_false_iff_not]
  rw [hrevisits, hcache]
  refine ⟨fun ⟨hstats, _⟩ hmem => ?_, fun hmem => ?_⟩
  · have hthrashing : (c.accounting.recordInsert id).thrashing = c.accounting.thrashing :=
      congrArg Stats.thrashing hstats
    have hgain := (c.accounting.gains_insert id).thrashing_eq
    rw [if_pos hmem] at hgain
    omega
  · have hsize : ((c.entered id h).drop id).size = c.size :=
      congrArg Table.size (Table.erase_insert_new hnew h)
    have haccounts : ((c.entered id h).drop id).accounting = c.accounting :=
      Accounting.recordInsert_of_not_mem hmem
    refine ⟨?_, congrArg Accounting.window haccounts⟩
    unfold stats
    rw [hsize, haccounts]
    rfl

/-! ## Runs -/

/-- **The operations of a cache since it was made.**  It is entered in a budget and given a hook at
any time, and between two operations the others do with the workspace what they like. -/
inductive Logged : List (Deed σ α) → Cache σ α → Workspace σ α → Prop
  | new (name : String) (settings : Settings) (w : Workspace σ α) :
      Logged [] (Cache.new name settings) w
  | attach {deeds : List (Deed σ α)} {c c' : Cache σ α} {w w' : Workspace σ α}
      (before : Logged deeds c w) (registered : c.attach w = .ok (c', w')) : Logged deeds c' w'
  | hook {deeds : List (Deed σ α)} {c : Cache σ α} {w : Workspace σ α}
      (before : Logged deeds c w) (hook : FlushHook σ α) : Logged deeds (c.setFlushHook hook) w
  | meanwhile {deeds : List (Deed σ α)} {c : Cache σ α} {w : Workspace σ α}
      (before : Logged deeds c w) (w' : Workspace σ α) : Logged deeds c w'
  | perform {deeds : List (Deed σ α)} {c : Cache σ α} {w : Workspace σ α}
      (before : Logged deeds c w) (op : Operation) :
      Logged (deeds ++ [⟨c, w, op⟩]) (c.perform w op).1 (c.perform w op).2

/-- **The counts of a cache are those of its deeds.** -/
theorem Logged.gains {deeds : List (Deed σ α)} {c : Cache σ α} {w : Workspace σ α}
    (log : Logged deeds c w) (limit : Nat) :
    (Accounting.new limit).Gains (deeds.countP Deed.finds) (deeds.countP Deed.misses)
      (deeds.flatMap Deed.evicted).length
      (deeds.countP Deed.returns + deeds.countP Deed.bounces) c.accounting := by
  induction log with
  | new name settings w => exact ⟨rfl, rfl, rfl, rfl⟩
  | attach before registered ih =>
    obtain ⟨b, rfl, -⟩ := attach_eq registered
    exact ih
  | hook before hook ih => exact ih
  | meanwhile before w' ih => exact ih
  | @perform deeds c w before op ih =>
    have hdeed := ih.trans (Deed.gains_after ⟨c, w, op⟩)
    have hsum (r b r' b' : Nat) : r + b + (r' + b') = r + r' + (b + b') := by omega
    rw [hsum] at hdeed
    simp only [List.countP_append, List.flatMap_append, List.length_append, List.flatMap_singleton]
    exact hdeed

/-- The deeds that several operations in a row are. -/
def deeds (c : Cache σ α) (w : Workspace σ α) : List Operation → List (Deed σ α)
  | [] => []
  | op :: ops => ⟨c, w, op⟩ :: deeds (c.perform w op).1 (c.perform w op).2 ops

/-- The cache and the workspace after several operations in a row. -/
def performAll (c : Cache σ α) (w : Workspace σ α) (ops : List Operation) :
    Cache σ α × Workspace σ α :=
  ops.foldl (fun s op => s.1.perform s.2 op) (c, w)

theorem Logged.performAll {before : List (Deed σ α)} {c : Cache σ α} {w : Workspace σ α}
    (log : Logged before c w) (ops : List Operation) :
    Logged (before ++ c.deeds w ops) (c.performAll w ops).1 (c.performAll w ops).2 := by
  induction ops generalizing before c w with
  | nil =>
    rw [deeds, List.append_nil]
    exact log
  | cons op ops ih =>
    have hrest := ih (log.perform op)
    rw [List.append_assoc] at hrest
    exact hrest

/-- **What the statistics tell of a run.**  Hits, misses and evictions are the numbers of look-ups
that found an object, of those that found none, and of the objects that left through eviction
passes.  Thrashing counts the additions that brought an object back soon after its eviction, and
also those that turned such an object away; it is the number of the former exactly if there are none
of the latter.  No other addition that is refused leaves a trace in what is told of the cache. -/
theorem Logged.counts_exact {deeds : List (Deed σ α)} {c : Cache σ α} {w : Workspace σ α}
    (log : Logged deeds c w) :
    (stats c).hits = deeds.countP Deed.finds ∧
    (stats c).misses = deeds.countP Deed.misses ∧
    (stats c).evictions = (deeds.flatMap Deed.evicted).length ∧
    (stats c).thrashing = deeds.countP Deed.returns + deeds.countP Deed.bounces ∧
    ((stats c).thrashing = deeds.countP Deed.returns ↔ ∀ d ∈ deeds, d.bounces = false) ∧
    ∀ (h : Handle) (refCount : UInt32) (e : Error), (c.add h refCount w).value = .error e →
      ((stats (c.add h refCount w).cache = stats c ∧
          (c.add h refCount w).cache.accounting.window = c.accounting.window) ↔
        Deed.revisits ⟨c, w, .add h refCount⟩ = false) := by
  obtain ⟨hhits, hmisses, hevictions, hthrashing⟩ := log.gains 0
  simp only [Accounting.new, Nat.zero_add] at hhits hmisses hevictions hthrashing
  refine ⟨hhits, hmisses, hevictions, hthrashing, ?_, fun h refCount e => stats_add_error⟩
  have hnone : deeds.countP Deed.bounces = 0 ↔ ∀ d ∈ deeds, d.bounces = false := by
    simp [List.countP_eq_zero]
  have hthrashing' : (stats c).thrashing = c.accounting.thrashing := rfl
  rw [← hnone]
  omega

/-- A cache for one collection. -/
def narrow : Cache Store Record := .new "collections" { capacity := 1, maxCapacity := 1 }

/-- Two collections take turns.  The one that came back is looked up, and so is a third one. -/
def turns : List Operation := [.add 0 0, .add 1 0, .add 0 0, .get 7, .get 9]

theorem counts_exact_turns :
    Logged (narrow.deeds twoCollections turns) (narrow.performAll twoCollections turns).1
      (narrow.performAll twoCollections turns).2 ∧
    (stats (narrow.performAll twoCollections turns).1).hits = 1 ∧
    (stats (narrow.performAll twoCollections turns).1).misses = 1 ∧
    (stats (narrow.performAll twoCollections turns).1).evictions = 2 ∧
    (stats (narrow.performAll twoCollections turns).1).thrashing = 1 ∧
    (narrow.deeds twoCollections turns).countP Deed.returns = 1 := by
  have start : Logged [] narrow twoCollections := .new "collections" _ _
  have log := start.performAll turns
  obtain ⟨hhits, hmisses, hevictions, -, hexact, -⟩ := log.counts_exact
  have hreturns : (narrow.deeds twoCollections turns).countP Deed.returns = 1 := by decide
  exact ⟨log, hhits.trans (by decide), hmisses.trans (by decide), hevictions.trans (by decide),
    (hexact.2 (by decide)).trans hreturns, hreturns⟩

/-- One collection comes, and another one takes its place and is pinned there. -/
def visits : List Operation := [.add 0 0, .add 1 1]

/-- The collection that had to leave is added again. -/
def revisit : Deed Store Record :=
  let s := narrow.performAll twoCollections visits
  ⟨s.1, s.2, .add 0 0⟩

/-- **A collection that is turned away counts as one that came back**, and leaves the window. -/
theorem thrashing_turned_away :
    Logged (narrow.deeds twoCollections visits ++ [revisit]) revisit.after.1 revisit.after.2 ∧
    revisit.answer? = some (.error (.capacityExhausted "collections" 1 1)) ∧
    (narrow.deeds twoCollections visits ++ [revisit]).countP Deed.returns = 0 ∧
    (stats revisit.cache).thrashing = 0 ∧
    (stats revisit.after.1).thrashing = 1 ∧
    revisit.cache.accounting.window.members = [7] ∧
    revisit.after.1.accounting.window.members = [] := by
  have start : Logged [] narrow twoCollections := .new "collections" _ _
  have htidy : Tidy revisit.cache :=
    (((tidy_newHooked "collections" { capacity := 1, maxCapacity := 1 } none).perform
      twoCollections (.add 0 0)).1.perform _ (.add 1 1)).1
  have hadds : revisit.cache.Adds revisit.workspace 0 0 7 := htidy.toSound.adds rfl rfl 0
  -- growth is measured in floating point, so the refusal is read off the outcomes
  have hrefused : (revisit.cache.add 0 0 revisit.workspace).value =
      .error (.capacityExhausted "collections" 1 1) := by
    rcases hadds.crowds rfl rfl with ⟨k, g, hpass, -⟩ | ⟨-, -, hlt, hle⟩ | ⟨-, -, his, -⟩
    · cases hpass
    · exact absurd (Nat.lt_of_lt_of_le hlt hle) (Nat.lt_irrefl 1)
    · exact his.value_eq
  have hanswer : revisit.answer? = some (.error (.capacityExhausted "collections" 1 1)) :=
    congrArg some hrefused
  obtain ⟨id, hid, -, -, hcache⟩ := add_of_error hrefused
  obtain rfl : 7 = id := Option.some.inj hid
  have hafter : revisit.after.1 = (revisit.cache.entered 7 0).drop 7 := hcache
  have hbefore : (narrow.deeds twoCollections visits).countP Deed.returns = 0 := by decide
  refine ⟨(start.performAll visits).perform (.add 0 0), hanswer, ?_, by decide, ?_, by decide, ?_⟩
  · rw [List.countP_append, hbefore, List.countP_singleton, Deed.returns, hanswer]
    rfl
  · rw [hafter]
    decide
  · rw [hafter]
    decide

end Folio.Cache
