import IdempotentTransformer.Durability

/-!
# IdempotentTransformer.Keys

Durable idempotency keys in every interleaving of storage calls.

`create_durable_idempotency_key` reads the row, mints a key and inserts it,
and returns the key it minted.  Its lock is given back before the row is
read, and checkpoint requests take none, so a row may appear in between; the
upsert then keeps the row's key, and the request returns another one.
-/

namespace IdempotentTransformer

open Library

variable {evictable : CachedLease → Int → Bool} {P : Handlers} {workflowId : String}
  {position : Int}

/-! ## What a key request rests on -/

/-- What a key request answers: the key of the row it read, having inserted
nothing, or the key it inserted, and no other. -/
def CreateDurableIdempotencyKeyInput.Answers (data : CreateDurableIdempotencyKeyInput)
    (log : CallLog) :
    Except HandlerError CreateDurableIdempotencyKeyOutput → Prop
  | .error _ => True
  | .ok output =>
      (∀ entry ∈ log, ∀ workflowId position key value createdAt,
        entry.1 = .insertCheckpoint workflowId position key value createdAt →
          key = output.idempotencyKey) ∧
      ((∃ row : CheckpointValue, Replied log (.selectCheckpoint data.workflowId data.position)
          (Except.ok (some row)) ∧ row.idempotencyKey = output.idempotencyKey) ∨
        ∃ createdAt, Replied log (.insertCheckpoint data.workflowId data.position
          output.idempotencyKey none createdAt) (Except.ok ()))

theorem CreateDurableIdempotencyKeyInput.obeys_answers
    (data : CreateDurableIdempotencyKeyInput) :
    (createDurableIdempotencyKey data).Obeys (fun _ _ => True) data.Answers [] := by
  rw [createDurableIdempotencyKey]
  simp only [Handler.obeys_bind, Handler.obeys_lock, Handler.obeys_dropGuard, Handler.Then,
    obeys_getCheckpoint]
  refine ⟨⟨trivial, ?_⟩, trivial⟩
  rintro (e | _ | row)
  · trivial
  · simp only [Except.mapError, Handler.Then, Handler.obeys_bind, obeys_getWorkflowFencingToken]
    refine ⟨trivial, fun r => ?_⟩
    cases r with
    | error e => trivial
    | ok token =>
        simp only [Handler.Then, Handler.obeys_bind, obeys_returnErrorIfTrue]
        split
        · trivial
        · split
          · trivial
          · simp only [obeys_newV4]
            refine ⟨trivial, fun minted => ?_⟩
            rw [Handler.Then, createCheckpoint, Handler.obeys_bind,
              Handler.obeys_bind, obeys_utcNow]
            refine ⟨trivial, fun now => ⟨trivial, fun r => ?_⟩⟩
            cases r with
            | error e => trivial
            | ok _ =>
                constructor
                · intro entry hentry workflowId position key value createdAt hinsert
                  simp only [List.mem_cons, List.not_mem_nil, or_false] at hentry
                  rcases hentry with rfl | rfl | rfl | rfl | rfl <;> cases hinsert
                  rfl
                · exact .inr ⟨now, replied_self⟩
  · constructor
    · intro entry hentry workflowId position key value createdAt hinsert
      rw [List.mem_singleton] at hentry
      subst hentry
      cases hinsert
    · exact .inl ⟨row, replied_self, rfl⟩

/-! ## Agreement -/

/-- The key a request for the position has returned. -/
def returnedKey (workflowId : String) (position : Int)
    (p : Process StorageCall StorageCall.Reply String (Except HandlerError Response) Request) :
    Option String :=
  match p.tag, answer p with
  | .generateIdempotencyKey data, some (.ok (.generateIdempotencyKey output)) =>
      if data.workflowId = workflowId ∧ data.position = position then some output.idempotencyKey
      else none
  | _, _ => none

/-- A request has returned this key for the position. -/
def Handlers.ReturnedKey (P : Handlers) (pid : Nat) (workflowId : String) (position : Int)
    (key : String) : Prop :=
  (P.procs pid).bind (returnedKey workflowId position) = some key

/-- The row of the position holds the key. -/
def World.HoldsKey (w : World) (workflowId : String) (position : Int) (key : String) : Prop :=
  ∃ row, w.checkpoints workflowId position = some row ∧ row.idempotencyKey = key

/-- All requests that have returned a key for the position have returned the
same one, and it is stored. -/
def Handlers.AgreesOnKey (P : Handlers) (workflowId : String) (position : Int) : Prop :=
  (∀ pid pid' key key', P.ReturnedKey pid workflowId position key →
      P.ReturnedKey pid' workflowId position key' → key = key') ∧
    ∀ pid key, P.ReturnedKey pid workflowId position key →
      P.shared.HoldsKey workflowId position key

/-- A request has inserted its key where another one was stored by then. -/
def Handlers.InsertedLate (P : Handlers) (pid : Nat) (workflowId : String)
    (position : Int) : Prop :=
  ∃ e ∈ P.trace, e.pid = pid ∧ ∃ key value createdAt,
    e.op = .insertCheckpoint workflowId position key value createdAt ∧
    ∃ row, e.before.checkpoints workflowId position = some row ∧ row.idempotencyKey ≠ key

/-- A request that has returned a key rests on its calls. -/
theorem Handlers.ReturnedKey.rests (hr : P.Reached evictable) {pid : Nat} {key : String}
    (h : P.ReturnedKey pid workflowId position key) :
    (∀ entry ∈ Pool.logOf pid P.trace, ∀ workflowId position key' value createdAt,
      entry.1 = .insertCheckpoint workflowId position key' value createdAt → key' = key) ∧
    ((∃ row : CheckpointValue, Replied (Pool.logOf pid P.trace)
        (.selectCheckpoint workflowId position) (Except.ok (some row)) ∧
        row.idempotencyKey = key) ∨
      ∃ createdAt, Replied (Pool.logOf pid P.trace)
        (.insertCheckpoint workflowId position key none createdAt) (Except.ok ())) := by
  rw [Handlers.ReturnedKey, Option.bind_eq_some_iff] at h
  obtain ⟨p, hp, hkey⟩ := h
  unfold returnedKey at hkey
  split at hkey
  · next data output htag hanswer =>
      split at hkey
      · next hplace =>
          cases hkey
          obtain ⟨rfl, rfl⟩ := hplace
          have hobeys : (Request.generateIdempotencyKey data).handler.Obeys (fun _ _ => True)
              (fun log r => ∀ output, r = .ok (.generateIdempotencyKey output) →
                data.Answers log (.ok output)) [] := by
            rw [Request.handler, obeys_wrap]
            refine Program.Obeys.imp (fun log r _ h output hr => ?_)
              data.obeys_answers
            cases r with
            | error e => cases hr
            | ok output' => cases hr; exact h
          have hends := hr.sound.obeys hp (htag ▸ hobeys)
          rw [answer_eq_some.mp hanswer] at hends
          exact hends output rfl
      · contradiction
  · contradiction

/-- A stored key stays. -/
theorem holdsKey_of_later (hr : P.Reached evictable) (hu : ∀ e ∈ P.trace, e.tag ≠ .cleanUp)
    {later earlier : List StorageEvent} {e : StorageEvent}
    (he : P.trace = later ++ e :: earlier) {key : String}
    (h : e.after.HoldsKey workflowId position key) :
    P.shared.HoldsKey workflowId position key := by
  obtain ⟨row, hrow, hkey⟩ := h
  have hsub : later ⊆ P.trace := by
    rw [he]
    exact List.subset_append_left later _
  have hkept : P.shared.Keeps workflowId position row :=
    keeps_of_span hr hsub (hr.sound.span_after he) (fun g hg hd => hu g (hsub hg) hd.1)
      ⟨row.createdAt, hrow⟩
  obtain ⟨createdAt, hkept⟩ := hkept
  exact ⟨_, hkept, hkey⟩

/-- **Agreement on durable keys**: it holds of a run exactly if none of the
requests that have returned a key has inserted it where another one was stored
by then. -/
theorem agrees_on_key_iff (hr : P.Reached evictable) (hu : ∀ e ∈ P.trace, e.tag ≠ .cleanUp)
    (workflowId : String) (position : Int) :
    P.AgreesOnKey workflowId position ↔
      ∀ pid key, P.ReturnedKey pid workflowId position key →
        ¬ P.InsertedLate pid workflowId position := by
  constructor
  · rintro ⟨-, hholds⟩ pid key hkey ⟨e, he, hpid, key', value, createdAt, hop, row, hrow, hne⟩
    obtain ⟨later, earlier, hsplit⟩ := List.append_of_mem he
    -- The upsert keeps the row's key, and so do all later calls.
    have hafter : e.after.HoldsKey workflowId position row.idempotencyKey := by
      obtain ⟨createdAt', hkept⟩ := hr.row_kept he (hu e he) hrow
      exact ⟨_, hkept, rfl⟩
    obtain ⟨stored, hstored, hsame⟩ := holdsKey_of_later hr hu hsplit hafter
    obtain ⟨stored', hstored', hsame'⟩ := hholds pid key hkey
    rw [hstored, Option.some.injEq] at hstored'
    have hentry : (⟨e.op, e.reply⟩ : (op : StorageCall) × op.Reply) ∈
      Pool.logOf pid P.trace := by
      simp only [Pool.logOf, List.mem_map, List.mem_filter, beq_iff_eq]
      exact ⟨e, ⟨he, hpid⟩, rfl⟩
    have hinserted : key' = key := (hkey.rests hr).1 _ hentry _ _ _ _ _ hop
    rw [hinserted, ← hsame', ← hstored', hsame] at hne
    exact hne rfl
  · intro hlate
    have hholds : ∀ pid key, P.ReturnedKey pid workflowId position key →
        P.shared.HoldsKey workflowId position key := by
      intro pid key hkey
      rcases (hkey.rests hr).2 with ⟨row, hread, heq⟩ | ⟨createdAt, hinsert⟩
      · obtain ⟨later, e, earlier, env, hsplit, -, -, hexec⟩ :=
          hr.sound.exists_of_mem_logOf (List.Subset.refl _) hread
        obtain ⟨hfound, hsame⟩ := Fault.apply_eq_ok hexec
        rw [eq_comm, Option.map_eq_some_iff] at hfound
        obtain ⟨stored, hstored, hrow⟩ := hfound
        refine holdsKey_of_later hr hu hsplit ⟨stored, ?_, ?_⟩
        · rw [hsame, hstored]
        · rw [← heq, ← hrow]
      · obtain ⟨later, e, earlier, env, hsplit, hpid, hop, hexec⟩ :=
          hr.sound.exists_of_mem_logOf (List.Subset.refl _) hinsert
        obtain ⟨-, hafter⟩ := Fault.apply_eq_ok hexec
        refine holdsKey_of_later hr hu hsplit
          ⟨upsertCheckpoint (e.before.checkpoints workflowId position) key none createdAt,
            ?_, ?_⟩
        · rw [hafter, World.setCheckpoint_checkpoints, if_pos ⟨rfl, rfl⟩]
        · cases hrow : e.before.checkpoints workflowId position with
          | none => rfl
          | some row =>
              have hmem : e ∈ P.trace := by rw [hsplit]; simp
              refine Classical.byContradiction fun hne => hlate pid key hkey ?_
              exact ⟨e, hmem, hpid, key, none, createdAt, hop, row, hrow, hne⟩
    refine ⟨fun pid pid' key key' hkey hkey' => ?_, hholds⟩
    obtain ⟨row, hrow, heq⟩ := hholds pid key hkey
    obtain ⟨row', hrow', heq'⟩ := hholds pid' key' hkey'
    rw [hrow, Option.some.injEq] at hrow'
    rw [← heq, ← heq', hrow']

/-! ## Runs -/

/-- A worker asks for the key of the first position. -/
def payKey : Request :=
  .generateIdempotencyKey { workflowId := "pay", fencingToken := 1, position := 0 }

/-- A handler makes some steps; a key it mints is `minted`. -/
def goesOnMinting (pid : Nat) (minted : String) (steps : Nat) :
    List (Pool.Label Request Env Drift) :=
  List.replicate steps (.advance pid true (.calm minted true))

/-- Two key requests, one after the other. -/
def keyTwice : List (Pool.Label Request Env Drift) :=
  arrives 0 payStart 5 ++ .arrive 1 payKey :: goesOnMinting 1 "a" 7 ++
    .arrive 2 payKey :: goesOnMinting 2 "b" 3

theorem same_key_twice :
    ∃ P : Handlers, runLabels keyTwice = some P ∧ P.ReturnedKey 1 "pay" 0 "a" ∧
      P.ReturnedKey 2 "pay" 0 "a" ∧ P.AgreesOnKey "pay" 0 := by
  obtain ⟨P, h⟩ : ∃ P, runLabels keyTwice = some P :=
    Option.isSome_iff_exists.mp (by decide +kernel)
  have hfirst : P.ReturnedKey 1 "pay" 0 "a" :=
    eq_of_runLabels h (fun P => (P.procs 1).bind (returnedKey "pay" 0)) (by decide +kernel)
  have hsecond : P.ReturnedKey 2 "pay" 0 "a" :=
    eq_of_runLabels h (fun P => (P.procs 2).bind (returnedKey "pay" 0)) (by decide +kernel)
  have htags : (P.trace.all fun e => e.tag != .cleanUp) = true :=
    eq_of_runLabels h (fun P => P.trace.all fun e => e.tag != .cleanUp) (by decide +kernel)
  have hinserts : (P.trace.all fun e => match e.op with
      | .insertCheckpoint .. => (e.before.checkpoints "pay" 0).isNone
      | _ => true) = true :=
    eq_of_runLabels h (fun P => P.trace.all fun e => match e.op with
      | .insertCheckpoint .. => (e.before.checkpoints "pay" 0).isNone
      | _ => true) (by decide +kernel)
  have hcleanUp : ∀ e ∈ P.trace, e.tag ≠ .cleanUp := fun e he => by
    simpa using List.all_eq_true.mp htags e he
  refine ⟨P, h, hfirst, hsecond,
    (agrees_on_key_iff (reached_of_runLabels h) hcleanUp "pay" 0).mpr ?_⟩
  rintro pid key - ⟨e, he, -, key', value, createdAt, hop, row, hrow, -⟩
  have hnone := List.all_eq_true.mp hinserts e he
  rw [hop] at hnone
  simp only [hrow, Option.isNone_some, Bool.false_eq_true] at hnone

/-- Two key requests; the second one arrives before the first one has inserted
its key. -/
def keysOverlap : List (Pool.Label Request Env Drift) :=
  arrives 0 payStart 5 ++ .arrive 1 payKey :: goesOnMinting 1 "a" 6 ++
    .arrive 2 payKey :: goesOnMinting 2 "b" 7 ++ goesOnMinting 1 "a" 1

/-- They return two keys, one of which is stored nowhere. -/
theorem overlapping_keys_differ :
    ∃ P : Handlers, runLabels keysOverlap = some P ∧ P.Reached leaseExpired ∧
      (∀ e ∈ P.trace, e.tag ≠ .cleanUp) ∧ P.ReturnedKey 1 "pay" 0 "a" ∧
      P.ReturnedKey 2 "pay" 0 "b" ∧ P.shared.HoldsKey "pay" 0 "b" ∧
        ¬ P.AgreesOnKey "pay" 0 := by
  obtain ⟨P, h⟩ : ∃ P, runLabels keysOverlap = some P :=
    Option.isSome_iff_exists.mp (by decide +kernel)
  have hfirst : P.ReturnedKey 1 "pay" 0 "a" :=
    eq_of_runLabels h (fun P => (P.procs 1).bind (returnedKey "pay" 0)) (by decide +kernel)
  have hsecond : P.ReturnedKey 2 "pay" 0 "b" :=
    eq_of_runLabels h (fun P => (P.procs 2).bind (returnedKey "pay" 0)) (by decide +kernel)
  have htags : (P.trace.all fun e => e.tag != .cleanUp) = true :=
    eq_of_runLabels h (fun P => P.trace.all fun e => e.tag != .cleanUp) (by decide +kernel)
  have hstored := eq_of_runLabels h (fun P => P.shared.checkpoints "pay" 0)
    (a := some { idempotencyKey := "b", value := none, createdAt := 0 }) (by decide +kernel)
  refine ⟨P, h, reached_of_runLabels h,
    fun e he => by simpa using List.all_eq_true.mp htags e he,
    hfirst, hsecond, ⟨_, hstored, rfl⟩, ?_⟩
  rintro ⟨hsame, -⟩
  have heq : "a" = "b" := hsame 1 2 "a" "b" hfirst hsecond
  exact absurd heq (by decide)

end IdempotentTransformer
