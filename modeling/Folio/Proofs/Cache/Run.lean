import Folio.Proofs.Cache.Filing
import Folio.Proofs.Cache.Soundness
import Folio.Store

/-! # Runs of a cache

A run starts with a new cache and goes on with operations of its owner, while others use
the objects and the budget.  **`Run.stays_tidy`** says what holds throughout.
-/
namespace Folio.Cache

variable {σ α : Type}

/-- A new cache with a hook or without one. -/
def newHooked (name : String) (settings : Settings) (hook : Option (FlushHook σ α)) :
    Cache σ α :=
  hook.elim (new name settings) (new name settings).setFlushHook

theorem newHooked_eq (name : String) (settings : Settings) (hook : Option (FlushHook σ α)) :
    newHooked name settings hook =
      { (Cache.new name settings : Cache σ α) with flushHook := hook } := by
  cases hook <;> rfl

variable [Cacheable α]

/-- **The states that a cache goes through.**  Between two operations the other users of its
workspace may do with instances, budget and store what they like, as long as the instances keep
their identities. -/
inductive Run (settings : Settings) (hook : Option (FlushHook σ α)) :
    Cache σ α → Workspace σ α → Prop
  | new (name : String) (w : Workspace σ α) : Run settings hook (newHooked name settings hook) w
  | attach {c c' : Cache σ α} {w w' : Workspace σ α} (before : Run settings hook c w)
      (registered : c.attach w = .ok (c', w')) : Run settings hook c' w'
  | perform {c : Cache σ α} {w : Workspace σ α} (before : Run settings hook c w) (op : Operation) :
      Run settings hook (c.perform w op).1 (c.perform w op).2
  | meanwhile {c : Cache σ α} {w w' : Workspace σ α} (before : Run settings hook c w)
      (kept : w.Keeps w') : Run settings hook c w'

section Runs
variable {settings : Settings} {hook : Option (FlushHook σ α)} {c : Cache σ α} {w : Workspace σ α}

omit [Cacheable α] in
/-- A new cache is empty. -/
theorem tidy_newHooked (name : String) (settings : Settings) (hook : Option (FlushHook σ α)) :
    Tidy (newHooked name settings hook) := by
  rw [newHooked_eq]
  refine ⟨.of_threads (l := []) Recency.threads_empty fun id => ?_, Nat.zero_le _⟩
  simp [contains, Cache.new]

theorem Run.bounds (run : Run settings hook c w) :
    Tidy c ∧ (settings.capacity ≤ settings.maxCapacity → Within c) := by
  induction run with
  | new name w =>
    refine ⟨tidy_newHooked name settings hook, fun hwithin => ?_⟩
    rw [newHooked_eq]
    exact hwithin
  | attach before registered ih =>
    obtain ⟨b, rfl, -⟩ := attach_eq registered
    exact ⟨⟨ih.1.toSound.congr rfl rfl, ih.1.size_le⟩, ih.2⟩
  | @perform c w before op ih =>
    have hstep := ih.1.perform w op
    exact ⟨hstep.1, fun hwithin => hstep.2 (ih.2 hwithin)⟩
  | meanwhile before kept ih => exact ih

theorem Run.filed [LawfulCacheable α] (hhook : KeepsIdentity hook) (run : Run settings hook c w) :
    Filed c w ∧ c.flushHook = hook := by
  induction run with
  | new name w =>
    rw [newHooked_eq]
    exact ⟨fun id h hget => by simp [Cache.new] at hget, rfl⟩
  | attach before registered ih =>
    obtain ⟨b, rfl, rfl, -⟩ := attach_eq registered
    exact ih
  | @perform c w before op ih =>
    exact ⟨ih.1.perform (ih.2 ▸ hhook) op, (perform_wiring c w op).1.trans ih.2⟩
  | meanwhile before kept ih => exact ⟨ih.1.congr kept rfl, ih.2⟩

/-- **What holds of a cache throughout its life.**  It holds no more objects than it may; its recency
order lists the identities of its entries, each once, and nothing else; its capacity is within the
maximum if it started so; and where objects keep their identities, each is cached under its own. -/
theorem Run.stays_tidy (run : Run settings hook c w) :
    c.size ≤ c.capacity ∧
    c.recency.Threads c.ids ∧ c.ids.Nodup ∧ (∀ id, id ∈ c.ids ↔ c.contains id = true) ∧
    (settings.capacity ≤ settings.maxCapacity → c.capacity ≤ c.settings.maxCapacity) ∧
    (LawfulCacheable α → KeepsIdentity hook →
      ∀ id h, c.entries.get? id = some h → w.identity? h = some id) := by
  obtain ⟨htidy, hwithin⟩ := run.bounds
  refine ⟨htidy.size_le, htidy.threads, htidy.threads.nodup, htidy.mem_ids_iff, hwithin, ?_⟩
  intro _ hhook
  exact (run.filed hhook).1

end Runs

/-- Records keep their identities: asking one whether it may leave changes nothing. -/
instance : LawfulCacheable Record := ⟨fun _ => rfl⟩

theorem keepsIdentity_flushHook : KeepsIdentity (some Store.flushHook) := by
  rintro _ ⟨⟩ i s
  unfold Store.flushHook
  split <;> rfl

/-- Two collections in memory. -/
def twoCollections : Workspace Store Record where
  pool := ⟨#[{ content := { id := 7, name := "/db" } }, { content := { id := 8, name := "/tmp" } }]⟩
  outside := {}

/-- A cache for one collection, to which both are added. -/
def crowded : Cache Store Record × Workspace Store Record :=
  let c := newHooked "collections" { capacity := 1, maxCapacity := 1 } (some Store.flushHook)
  let s := c.perform twoCollections (.add 0 0)
  s.1.perform s.2 (.add 1 0)

theorem crowded_tidy :
    Run { capacity := 1, maxCapacity := 1 } (some Store.flushHook) crowded.1 crowded.2 ∧
    crowded.1.ids = [8] ∧ crowded.1.size ≤ crowded.1.capacity ∧
    crowded.1.capacity ≤ crowded.1.settings.maxCapacity ∧
    (∀ id h, crowded.1.entries.get? id = some h → crowded.2.identity? h = some id) := by
  have run : Run { capacity := 1, maxCapacity := 1 } (some Store.flushHook) crowded.1 crowded.2 :=
    ((Run.new "collections" twoCollections).perform (.add 0 0)).perform (.add 1 0)
  obtain ⟨hsize, -, -, -, hwithin, hfiled⟩ := run.stays_tidy
  exact ⟨run, by decide, hsize, hwithin (by decide), hfiled inferInstance keepsIdentity_flushHook⟩

end Folio.Cache
