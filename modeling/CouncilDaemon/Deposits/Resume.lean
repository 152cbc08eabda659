import CouncilDaemon.Deposits.HonestUpdates

/-!
# Resuming the synchronization

A `Machine` is a database and, while the process runs, the registry started on it. It starts and
updates, one update after the other. An update that throws leaves the process running, with the registry
as the update left it: the caller catches the error and goes on to the next block. The process ends at
an exit, at a start that throws, or killed between any two writes, which is an update whose next answer
is an error, and a kill. `initialize`, where the first update ends the process when it throws, is made of
these steps (`Reachable.initialized`).

In every run the database is synchronized and a running registry is live on it or stalled
(`Reachable.good`). So an update that returns leaves the events up to the finalized block, and a restart
completes exactly when a deposit is stored or the header still starts at block zero (`resume`): on a
network with a deployment block, the process can not be restarted after it stopped before the first
deposit (`not_restarted_before_first_deposit`).
-/

namespace CouncilDaemon

variable {C : Crypto} {D : ℕ} {H : History D} {F F' : ℕ} {env : Env} {content : StoreContent}
  {registry : Registry}

/-! ## A start -/

theorem Synced.load (h : Synced H F content) :
    content.load.data = content.data ∧ content.load.headers.startBlock = content.startBlock ∧
      content.load.headers.endBlock = content.endBlock := by
  unfold StoreContent.load
  cases hheaders : content.headers with
  | none =>
    have hend : content.endBlock = 0 := by simp [StoreContent.endBlock, hheaders]
    refine ⟨?_, by simp [StoreContent.startBlock, hheaders, depositCacheDefault],
      by simp [hend, depositCacheDefault]⟩
    rw [h.data, hend, History.upTo_of_le (by omega)]
    rfl
  | some headers => simp [StoreContent.startBlock, StoreContent.endBlock, hheaders]

/-- The last stored deposit, which the clean-up keeps, and the number of deposits. -/
theorem Synced.getLast? (h : Synced H F content) :
    Registry.Indexed H content content.data.getLast? ∧
      content.data.length = content.data.getLast?.elim 0 (·.depositCount + 1) := by
  refine ⟨fun event hevent => ⟨List.mem_of_getLast? hevent, ?_⟩, ?_⟩
  · rw [h.data] at hevent
    exact History.lastOfBlock_of_getLast? hevent
  · have hcounted := History.counted_upTo (H := H) (max content.endBlock D)
    rw [← h.data] at hcounted
    cases hlast : content.data.getLast? with
    | none => simp [List.getLast?_eq_none_iff.1 hlast]
    | some event =>
      obtain ⟨front, hfront⟩ := List.getLast?_eq_some_iff.1 hlast
      rw [hfront, List.map_append, List.length_append, ← List.range'_append_1] at hcounted
      have := (List.append_inj' hcounted rfl).2
      simp at this
      simp [hfront, this]

/-- **The clean-up at start-up**, on a synchronized database: it passes its check exactly when a
deposit is stored or the header starts at block zero, and then deletes nothing but rewrites the
header. -/
theorem run_initializeStore_synced {db : Db} (disk : Disk) (hstored : Stored db content)
    (hsynced : Synced H F content) :
    (DepositsRegistryStore.initializeStore disk).run (DepositsRegistryStore.opened db) =
      if content.data = [] ∧ content.startBlock ≠ 0 then
        .error "Deposit header is not valid" (content.loaded db)
      else (DepositsRegistryStore.deleteDepositsGreaterThanOrEqualNBatch disk content.data.length {
        startBlock := content.startBlock
        endBlock := (content.data.getLast?.map (·.blockNumber)).getD 0 }).run (content.loaded db) := by
  obtain ⟨hdata, hstart, _⟩ := hsynced.load
  have hcounted : countedFrom 0 content.data = content.data := by
    rw [countedFrom_eq_self_iff, hsynced.data]
    exact History.counted_upTo _
  have hcheck : (content.data.getLast?.map (·.blockNumber)).getD 0 < content.startBlock ↔
      content.data = [] ∧ content.startBlock ≠ 0 := by
    cases hlast : content.data.getLast? with
    | none => simp [List.getLast?_eq_none_iff.1 hlast, Nat.pos_iff_ne_zero]
    | some event =>
      have hmem := List.mem_of_getLast? hlast
      have hdeployed := H.deployed event (hsynced.mem_events hmem)
      have hne : content.data ≠ [] := List.ne_nil_of_mem hmem
      have hle : content.startBlock ≤ D := by
        rcases hsynced.startBlock with h | ⟨h, _⟩ <;> omega
      simp only [Option.map_some, Option.getD_some, hne, false_and, iff_false, not_lt]
      omega
  have hopened : Stored (DepositsRegistryStore.opened db).db content := hstored
  rw [DepositsRegistryStore.run_initializeStore hopened,
    DepositsRegistryStore.run_validateAndCleanInconsistentCache]
  simp only [StoreContent.loaded, hdata, hstart, hcounted, hcheck, DepositsRegistryStore.opened]

/-- A start leaves the database synchronized, and a registry that started is live. With a disk that takes
the writes, it comes to its end if a deposit is stored or the header starts at block zero. -/
theorem run_start_synced {db : Db} (hstored : Stored db content) (hsynced : Synced H F content) :
    ∃ content', Stored (Service.after ((Registry.start C env).run (Registry.opened C db))).store.db
        content' ∧ Synced H F content' ∧
      (∀ registry, (Registry.start C env).run (Registry.opened C db) = .ok () registry →
        Live C content' registry) ∧
      ((∀ ops, env.disk.write ops = .ok ()) → content.data ≠ [] ∨ content.startBlock = 0 →
        ∃ registry, (Registry.start C env).run (Registry.opened C db) = .ok () registry) := by
  obtain ⟨hindexed, hlength⟩ := hsynced.getLast?
  have hkey : content.data.length < 2 ^ 32 := by
    rw [hsynced.data]
    exact History.length_upTo_lt _
  have hinit := run_initializeStore_synced env.disk hstored hsynced
  have hloaded : Stored (content.loaded db).db content := hstored
  rw [DepositsRegistryStore.run_deleteDeposits hloaded hkey] at hinit
  let headers : VerifiedDepositEventsCacheHeaders := {
    startBlock := content.startBlock
    endBlock := (content.data.getLast?.map (·.blockNumber)).getD 0 }
  have hcut : Synced H F (content.deleteFrom content.data.length headers) := by
    have := hsynced.deleteFrom hindexed
    rwa [← hlength] at this
  have hcutStored := hloaded.deletionOps content.data.length headers
  have hstart : (Registry.start C env).run (Registry.opened C db) =
      match (DepositsRegistryStore.initializeStore env.disk).run (DepositsRegistryStore.opened db) with
      | .ok _ store => (Registry.onTree (Registry.putEventsToTree C store.cache.data)).run
          { Registry.opened C db with store }
      | .error e store => .error e { Registry.opened C db with store } := by
    simp only [Registry.start, EStateM.run_bind, Registry.run_onStore, Registry.opened]
    cases (DepositsRegistryStore.initializeStore env.disk).run (DepositsRegistryStore.opened db) <;> rfl
  split_ifs at hinit with hheader
  · rw [hstart, hinit]
    refine ⟨content, hstored, hsynced, by simp, fun _ hpasses => ?_⟩
    rcases hpasses with hdata | hblock
    · exact absurd hheader.1 hdata
    · exact absurd hblock hheader.2
  · cases hwrite : env.disk.write (content.deletionOps content.data.length headers) with
    | error e =>
      rw [hwrite] at hinit
      rw [hstart, hinit]
      refine ⟨content, hstored, hsynced, by simp, fun hwrites _ => ?_⟩
      rw [hwrites] at hwrite
      cases hwrite
    | ok _ =>
      rw [hwrite] at hinit
      obtain ⟨hdata, hstartBlock, hendBlock⟩ := hcut.load
      let store := (content.deleteFrom content.data.length headers).loaded
        ((content.loaded db).db.batch (content.deletionOps content.data.length headers))
      have hcounted : countedFrom 0 store.cache.data = store.cache.data := by
        rw [countedFrom_eq_self_iff, show store.cache.data = _ from hdata, hcut.data]
        exact History.counted_upTo _
      obtain ⟨tree, _, hput⟩ :=
        Registry.run_putEventsToTree store.cache.data (DepositTree.holds_new (C := C))
      rw [List.length_nil, if_pos hcounted] at hput
      have hrun : (Registry.start C env).run (Registry.opened C db) = .ok () ⟨store, tree⟩ := by
        rw [hstart, hinit]
        dsimp only
        rw [Registry.run_onTree, show (Registry.opened C db).finalizedTree = DepositTree.new C from rfl,
          hput]
      refine ⟨content.deleteFrom content.data.length headers, ?_, hcut, fun registry hstarted => ?_,
        fun _ _ => ⟨_, hrun⟩⟩
      · rw [hrun]
        exact hcutStored
      · have haligned := Registry.aligned_of_start hstarted
        rw [hrun] at hstarted
        obtain rfl := (EStateM.Result.ok.inj hstarted).2
        exact ⟨⟨hcutStored, hdata, hstartBlock, hendBlock⟩, haligned⟩

/-! ## The machine -/

/-- The database and the running process. -/
structure Machine where
  db : Db
  live : Option Registry
  /-- The last finalized block that an update has seen. -/
  finalized : ℕ

namespace Machine

open Registry

/-- The steps of a machine. -/
inductive Step (C : Crypto) {D : ℕ} (H : History D) : Machine → Machine → Prop
  | start {m : Machine} (env : Env) {registry : Registry}
      (h : (start C env).run (opened C m.db) = .ok () registry) :
      Step C H m ⟨registry.store.db, some registry, m.finalized⟩
  | startThrows {m : Machine} {env : Env} {e : String} {registry : Registry}
      (h : (start C env).run (opened C m.db) = .error e registry) :
      Step C H m ⟨registry.store.db, none, m.finalized⟩
  | update {m : Machine} {env : Env} {F : ℕ} {registry registry' : Registry}
      (hlive : m.live = some registry) (hF : m.finalized ≤ F) (henv : Honest H F env)
      (h : (updateEventsCache C env).run registry = .ok .returned registry') :
      Step C H m ⟨registry'.store.db, some registry', F⟩
  | updateThrows {m : Machine} (env : Env) {F : ℕ} {e : String} {registry registry' : Registry}
      (hlive : m.live = some registry) (hF : m.finalized ≤ F) (henv : Honest H F env)
      (h : (updateEventsCache C env).run registry = .error e registry') :
      Step C H m ⟨registry'.store.db, some registry', F⟩
  | updateExits {m : Machine} {env : Env} {F : ℕ} {registry registry' : Registry}
      (hlive : m.live = some registry) (hF : m.finalized ≤ F) (henv : Honest H F env)
      (h : (updateEventsCache C env).run registry = .ok .exited registry') :
      Step C H m ⟨registry'.store.db, none, F⟩
  | kill {m : Machine} : Step C H m ⟨m.db, none, m.finalized⟩

/-- The machines that are reached from an empty database. -/
def Reachable (C : Crypto) {D : ℕ} (H : History D) : Machine → Prop :=
  Relation.ReflTransGen (Step C H) ⟨OrderedStore.empty, none, 0⟩

/-- The database of the machine is synchronized, and the running registry is live on it or stalled. -/
def Good (C : Crypto) (H : History D) (m : Machine) : Prop :=
  ∃ content, Stored m.db content ∧ Synced H m.finalized content ∧
    ∀ registry, m.live = some registry → Running C H m.finalized content registry

theorem good_of_running {db : Db} (hrunning : Running C H F content registry)
    (hsynced : Synced H F content) (hdb : registry.store.db = db) :
    Good C H ⟨db, some registry, F⟩ := by
  refine ⟨content, hdb ▸ hrunning.loaded.stored, hsynced, fun registry' hsome => ?_⟩
  obtain rfl := Option.some.inj hsome
  exact hrunning

/-- **Steps.** -/
theorem Good.step {m m' : Machine} (h : Good C H m) (hstep : Step C H m m') : Good C H m' := by
  obtain ⟨content, hstored, hsynced, hrunning⟩ := h
  cases hstep with
  | start _ hrun =>
    obtain ⟨content', _, hsynced', hlive', _⟩ := run_start_synced (C := C) hstored hsynced
    exact good_of_running (Or.inl (hlive' _ hrun)) hsynced' rfl
  | startThrows hrun =>
    obtain ⟨content', hstored', hsynced', _⟩ := run_start_synced (C := C) hstored hsynced
    rw [hrun] at hstored'
    exact ⟨content', hstored', hsynced', by simp⟩
  | update hregistry hF henv hrun =>
    obtain ⟨content', hlive', hsynced', _⟩ := (hrunning _ hregistry).returned henv hF hsynced hrun
    exact good_of_running (Or.inl hlive') hsynced' rfl
  | updateThrows _ hregistry hF henv hrun =>
    obtain ⟨content', hrunning', hsynced'⟩ := (hrunning _ hregistry).thrown henv hF hsynced hrun
    exact good_of_running hrunning' hsynced' rfl
  | updateExits hregistry hF henv hrun =>
    obtain ⟨content', hstored', hsynced'⟩ := (hrunning _ hregistry).exited henv hF hsynced hrun
    exact ⟨content', hstored', hsynced', by simp⟩
  | kill => exact ⟨content, hstored, hsynced, by simp⟩

/-- **Runs.** -/
theorem Reachable.good {m : Machine} (h : Reachable C H m) : Good C H m := by
  induction h with
  | refl => exact ⟨StoreContent.empty, Stored.empty, synced_empty, by simp⟩
  | tail _ hstep ih => exact ih.step hstep

/-- The machine after `initialize`, with the finalized block `F` that it saw. The process goes on only
when `initialize` returns. -/
def initialized (C : Crypto) (env : Env) (m : Machine) (F : ℕ) : Machine :=
  match (initializeRegistry C env).run (opened C m.db) with
  | .ok .returned registry => ⟨registry.store.db, some registry, F⟩
  | .ok .exited registry => ⟨registry.store.db, none, F⟩
  | .error _ registry => ⟨registry.store.db, none, F⟩

/-- `initialize` is a start and an update, and the end of the process where one of them throws. -/
theorem Reachable.initialized {m : Machine} (h : Reachable C H m) (hF : m.finalized ≤ F)
    (henv : Honest H F env) : ∃ F', m.finalized ≤ F' ∧ F' ≤ F ∧
      Reachable C H (m.initialized C env F') := by
  unfold Machine.initialized initializeRegistry
  rw [EStateM.run_bind]
  cases hstart : (start C env).run (opened C m.db) with
  | error e registry => exact ⟨m.finalized, le_refl _, hF, h.tail (.startThrows hstart)⟩
  | ok _ registry =>
    refine ⟨F, hF, le_refl _, ?_⟩
    have hstarted := h.tail (.start env hstart)
    dsimp only
    cases hupdate : (updateEventsCache C env).run registry with
    | error e registry' => exact (hstarted.tail (.updateThrows env rfl hF henv hupdate)).tail .kill
    | ok finish registry' =>
      cases finish with
      | returned => exact hstarted.tail (.update rfl hF henv hupdate)
      | exited => exact hstarted.tail (.updateExits rfl hF henv hupdate)

/-- **Resuming.** In every run, a restart completes exactly when a deposit is stored or the header
starts at block zero; and an update that returns leaves, in the database and in memory, exactly the
history up to the finalized block, with the header ending there if it ended before. -/
theorem resume {m : Machine} (h : Reachable C H m) :
    ∃ content, Stored m.db content ∧
      ((∃ store, (DepositsRegistryStore.initializeStore .sound).run
          (DepositsRegistryStore.opened m.db) = .ok () store) ↔
        content.data ≠ [] ∨ content.startBlock = 0) ∧
      ∀ registry env F hash registry', m.live = some registry → m.finalized ≤ F →
        Honest H F env → env.finalizedBlock = .ok (F, hash) →
        (updateEventsCache C env).run registry = .ok .returned registry' →
        registry'.store.cache.data = H.upTo F ∧
          (∃ content', Stored registry'.store.db content' ∧ content'.data = H.upTo F) ∧
          ((cachedHeaders registry D).endBlock < F → registry'.store.cache.headers.endBlock = F) := by
  obtain ⟨content, hstored, hsynced, hrunning⟩ := h.good
  refine ⟨content, hstored, ?_, ?_⟩
  · have hkey : content.data.length < 2 ^ 32 := by
      rw [hsynced.data]
      exact History.length_upTo_lt _
    have hloaded : Stored (content.loaded m.db).db content := hstored
    rw [run_initializeStore_synced .sound hstored hsynced,
      DepositsRegistryStore.run_deleteDeposits hloaded hkey]
    by_cases hheader : content.data = [] ∧ content.startBlock ≠ 0
    · rw [if_pos hheader]
      simp [hheader]
    · rw [if_neg hheader]
      refine iff_of_true ⟨_, rfl⟩ ?_
      by_cases hnil : content.data = []
      · exact Or.inr (not_not.1 fun hne => hheader ⟨hnil, hne⟩)
      · exact Or.inl hnil
  · intro registry env F hash registry' hregistry hF henv hfinalized hrun
    have hl := (hrunning registry hregistry).loaded
    obtain ⟨content', hlive', _, hdone⟩ := (hrunning registry hregistry).returned henv hF hsynced hrun
    obtain ⟨hdata, hend⟩ := hdone ⟨hash, hfinalized⟩
    refine ⟨hlive'.data.trans hdata, ⟨content', hlive'.stored, hdata⟩, fun hlt => ?_⟩
    rw [hlive'.endBlock]
    refine hend ?_
    rwa [cachedHeaders, hl.endBlock] at hlt

/-- A node of the network `chainId` that knows `H` up to the block `F`, and does not answer the
request for the deposit root. -/
def nodeOf (chainId F : ℕ) (H : History D) : Env where
  chainId := chainId
  finalizedBlock := .ok (F, "0x0f")
  fetchEventsFallOver first last := .ok (H.between first last)
  getDepositRoot _ := .error "timeout"
  disk := .sound

theorem honest_nodeOf {chainId F : ℕ} (h : deploymentBlockNetwork chainId = some D) :
    Honest H F (nodeOf chainId F H) where
  deployed := h
  finalized number hash heq := by
    obtain ⟨rfl, _⟩ := Prod.mk.inj (Except.ok.inj heq)
    rfl
  complete first last events _ heq := by
    obtain rfl := Except.ok.inj heq
    exact List.Perm.refl _

/-- A history with one deposit, 1500 blocks after the deployment. -/
def oneDeposit (D : ℕ) : History D where
  events := [{ sampleEvent 0 with blockNumber := D + 1500 }]
  counted := rfl
  deployed := by simp
  ordered := List.pairwise_singleton _ _
  length_lt := by simp

/-- The machine of a fresh network after its first start. -/
def started (chainId D : ℕ) : Machine :=
  let registry := Service.after ((start .framed (nodeOf chainId 0 (oneDeposit D))).run
    (opened .framed OrderedStore.empty))
  ⟨registry.store.db, some registry, 0⟩

theorem reachable_started (chainId D : ℕ) :
    Reachable .framed (oneDeposit D) (started chainId D) :=
  .single (.start (nodeOf chainId 0 (oneDeposit D)) rfl)

/-- The registry of Holesky after a start. -/
def startedRegistry : Registry :=
  Service.after ((start .framed (nodeOf 17000 0 (oneDeposit 0))).run (opened .framed OrderedStore.empty))

theorem aligned_startedRegistry : Aligned .framed startedRegistry :=
  aligned_of_start (show (start .framed (nodeOf 17000 0 (oneDeposit 0))).run
    (opened .framed OrderedStore.empty) = .ok () startedRegistry from rfl)

/-- A node of the network `chainId` that knows `H` up to the block `block`, and its root there. -/
def answeringNode (chainId block : ℕ) (H : History D) : Env :=
  { nodeOf chainId block H with
    getDepositRoot := fun _ =>
      .ok (DepositTree.depositRoot .framed ((H.upTo block).map (·.depositDataRoot))) }

theorem answering_answeringNode {chainId block : ℕ} (h : deploymentBlockNetwork chainId = some D) :
    Answering .framed H block (answeringNode chainId block H) where
  deployed := h
  finalized := (honest_nodeOf (H := H) h).finalized
  complete := (honest_nodeOf (H := H) h).complete
  answers _ _ _ := ⟨_, rfl⟩
  writes _ := rfl
  root := ⟨_, rfl, rfl⟩

/-- The registry of Holesky that has stored the deposit. -/
def updatedRegistry : Registry :=
  Service.after ((updateEventsCache .framed (answeringNode 17000 1600 (oneDeposit 0))).run
    startedRegistry)

/-- The registry of Holesky that was started again on this store. -/
def restartedRegistry : Registry :=
  Service.after ((start .framed (nodeOf 17000 0 (oneDeposit 0))).run
    (opened .framed updatedRegistry.store.db))

/-- Holesky, killed after its first update and started again. -/
def restarted : Machine := ⟨restartedRegistry.store.db, some restartedRegistry, 1600⟩

/-- A live registry that is updated by a node that answers. -/
theorem run_update_answered {m : Machine} (hreach : Reachable C H m) (hregistry : m.live = some registry)
    (haligned : Aligned C registry) (hF : m.finalized ≤ F) (h : Answering C H F env) :
    ∃ registry' content, (updateEventsCache C env).run registry = .ok .returned registry' ∧
      Live C content registry' ∧ Synced H F content ∧ content.data = H.upTo F := by
  obtain ⟨_, _, hsynced, hrunning⟩ := hreach.good
  have hlive := (hrunning registry hregistry).live haligned
  obtain ⟨registry', hreturned⟩ := run_updateEventsCache_answering h hlive (hsynced.mono hF)
  obtain ⟨hash, hfinalized, _⟩ := h.root
  obtain ⟨content', hlive', hsynced', hdone⟩ :=
    (hrunning registry hregistry).returned h.toHonest hF hsynced hreturned
  exact ⟨registry', content', hreturned, hlive', hsynced', (hdone ⟨hash, hfinalized⟩).1⟩

theorem run_restarted :
    (updateEventsCache .framed (answeringNode 17000 1600 (oneDeposit 0))).run startedRegistry =
      .ok .returned updatedRegistry ∧
    (start .framed (nodeOf 17000 0 (oneDeposit 0))).run (opened .framed updatedRegistry.store.db) =
      .ok () restartedRegistry := by
  have hanswering : Answering .framed (oneDeposit 0) 1600 (answeringNode 17000 1600 (oneDeposit 0)) :=
    answering_answeringNode rfl
  obtain ⟨registry, content, hrun, hlive, hsynced, hdata⟩ := run_update_answered
    (reachable_started 17000 0) rfl aligned_startedRegistry (Nat.zero_le _) hanswering
  have hupdated : updatedRegistry = registry := congrArg Service.after hrun
  have hne : content.data ≠ [] := by
    rw [hdata]
    decide
  have hstarts : ∃ registry', (start .framed (nodeOf 17000 0 (oneDeposit 0))).run
      (opened .framed registry.store.db) = .ok () registry' := by
    obtain ⟨_, _, _, _, hstarts⟩ :=
      @run_start_synced .framed 0 (oneDeposit 0) 1600 (nodeOf 17000 0 (oneDeposit 0)) content
        registry.store.db hlive.stored hsynced
    exact hstarts (fun _ => rfl) (Or.inl hne)
  obtain ⟨registry', hstarted⟩ := hstarts
  rw [← hupdated] at hrun hstarted
  have hrestarted : restartedRegistry = registry' := congrArg Service.after hstarted
  exact ⟨hrun, hrestarted ▸ hstarted⟩

/-- An update, a kill and a restart. -/
theorem Reachable.restart {m : Machine} (h : Reachable C H m) {registry' registry'' : Registry}
    (hregistry : m.live = some registry) (hF : m.finalized ≤ F) (henv : Honest H F env)
    (hupdated : (updateEventsCache C env).run registry = .ok .returned registry') {env' : Env}
    (hstarted : (start C env').run (opened C registry'.store.db) = .ok () registry'') :
    Reachable C H ⟨registry''.store.db, some registry'', F⟩ :=
  ((h.tail (.update hregistry hF henv hupdated)).tail .kill).tail (.start env' hstarted)

theorem reachable_restarted : Reachable .framed (oneDeposit 0) restarted := by
  have hanswering : Answering .framed (oneDeposit 0) 1600 (answeringNode 17000 1600 (oneDeposit 0)) :=
    answering_answeringNode rfl
  exact (reachable_started 17000 0).restart rfl (Nat.zero_le _) hanswering.toHonest run_restarted.1
    run_restarted.2

/-- Holesky, killed after its first update and started again: the next update returns. -/
theorem resume_holesky : ∃ content, Stored restarted.db content ∧
    ((∃ store, (DepositsRegistryStore.initializeStore .sound).run
        (DepositsRegistryStore.opened restarted.db) = .ok () store) ↔
      content.data ≠ [] ∨ content.startBlock = 0) ∧
    ∃ registry, (updateEventsCache .framed (answeringNode 17000 1700 (oneDeposit 0))).run
        restartedRegistry = .ok .returned registry ∧
      registry.store.cache.data = (oneDeposit 0).events ∧
      ∃ content', Stored registry.store.db content' ∧ content'.data = (oneDeposit 0).events := by
  obtain ⟨content, hstored, hrestarts, hupdates⟩ := resume reachable_restarted
  have hanswering : Answering .framed (oneDeposit 0) 1700 (answeringNode 17000 1700 (oneDeposit 0)) :=
    answering_answeringNode rfl
  obtain ⟨registry, _, hrun, _⟩ := run_update_answered reachable_restarted rfl
    (aligned_of_start run_restarted.2) (by decide) hanswering
  obtain ⟨hdata, hdatabase, _⟩ := hupdates restartedRegistry _ 1700 _ registry rfl (by decide)
    hanswering.toHonest rfl hrun
  exact ⟨content, hstored, hrestarts, registry, hrun, hdata, hdatabase⟩

/-- The Mainnet machine that stopped after its first chunk, before the first deposit. -/
def stoppedBeforeFirstDeposit : Machine :=
  let registry := Service.after ((start .framed (nodeOf 1 0 (oneDeposit 11052984))).run
    (opened .framed OrderedStore.empty))
  ⟨(Service.after ((updateEventsCache .framed (nodeOf 1 11053484 (oneDeposit 11052984))).run
    registry)).store.db, none, 11053484⟩

/-- On Mainnet, a process that stopped after its first chunk, before the first deposit, can not be
restarted. -/
theorem not_restarted_before_first_deposit : deploymentBlockNetwork 1 = some 11052984 ∧
    Reachable .framed (oneDeposit 11052984) stoppedBeforeFirstDeposit ∧ ∃ store,
      (DepositsRegistryStore.initializeStore .sound).run
        (DepositsRegistryStore.opened stoppedBeforeFirstDeposit.db) =
          .error "Deposit header is not valid" store := by
  have hthrows := (reachable_started 1 11052984).tail (.updateThrows
    (nodeOf 1 11053484 (oneDeposit 11052984)) rfl (Nat.zero_le _) (honest_nodeOf rfl)
    (e := "timeout") rfl)
  exact ⟨rfl, hthrows.tail .kill, _, rfl⟩

end Machine

end CouncilDaemon
