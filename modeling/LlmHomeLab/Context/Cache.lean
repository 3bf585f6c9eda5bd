import LlmHomeLab.Lib.Recency
import LlmHomeLab.Routing.Engine
import LlmHomeLab.State.SessionStore

/-! # Context assembly and its cache

`context/assembler.py` and `context/cache.py`. The cache is an ordered dictionary with a bound
on its entries: a hit moves its key to the end, a miss adds it there and drops the first one.
What it holds is compared with the history of all calls.
-/

namespace LlmHomeLab

/-! ## Model -/

structure AssembledContext where
  messages : List Message
  compacted : Bool
  droppedMessageCount : Nat
deriving DecidableEq, Repr

/-- A quarter of the characters, rounded up. -/
def estimateTokens (messages : List Message) : Int :=
  (((messages.map fun m => m.content.length).sum + 3) / 4 : Nat)

def summaryMessage (session : Session) : Option Message :=
  session.summary.map fun summary =>
    ⟨"system", "Summary of earlier conversation: " ++ summary.summaryText⟩

/-- The loop over the messages, the latest first: keep them as long as the budget lasts, and at
least one. -/
def keepRecent (remainingBudget : Int) (kept : List Message) : List Message → List Message
  | [] => kept
  | message :: rest =>
    let cost := estimateTokens [message]
    if !kept.isEmpty && remainingBudget < cost then kept
    else keepRecent (remainingBudget - cost) (message :: kept) rest

def assembleContext (session : Session) (tokenBudget : Int) : AssembledContext :=
  let summary := (summaryMessage session).toList
  let rawMessages : List Message := session.messages.map fun m => ⟨m.role, m.content⟩
  let fullMessages := summary ++ rawMessages
  if estimateTokens fullMessages ≤ tokenBudget then ⟨fullMessages, false, 0⟩
  else
    let kept := keepRecent (tokenBudget - estimateTokens summary) [] rawMessages.reverse
    let dropped := rawMessages.length - kept.length
    ⟨summary ++ kept, 0 < dropped, dropped⟩

/-- The components of a `_CacheKey`. -/
structure CacheKey where
  sessionId : String
  messages : List (Int × String × String)
  summary : Option (Int × String)
  tokenBudget : Int
deriving DecidableEq

/-- `_cache_key`. -/
def cacheKey (session : Session) (tokenBudget : Int) : CacheKey where
  sessionId := session.sessionId
  messages := session.messages.map fun m => (m.seq, m.role, m.content)
  summary := session.summary.map fun summary => (summary.coversUpToSeq, summary.summaryText)
  tokenBudget := tokenBudget

structure ContextCache where
  maxEntries : Int := 128
  entries : Dict CacheKey AssembledContext := .empty
  hits : Nat := 0
  misses : Nat := 0
  compactionCount : Nat := 0

namespace ContextCache

/-- `assemble`. -/
def assemble (cache : ContextCache) (session : Session) (tokenBudget : Int) :
    AssembledContext × ContextCache :=
  let key := cacheKey session tokenBudget
  match cache.entries.get? key with
  | some result =>
    (result, { cache with hits := cache.hits + 1, entries := cache.entries.moveToEnd key })
  | none =>
    let result := assembleContext session tokenBudget
    let entries := (cache.entries.set key result).moveToEnd key
    (result, { cache with
      misses := cache.misses + 1
      compactionCount := cache.compactionCount + if result.compacted then 1 else 0
      entries :=
        if cache.maxEntries < entries.keys.length then entries.popFirst else entries })

end ContextCache

/-! ## The key captures what is assembled -/

theorem assembleContext_congr {session session' : Session} {tokenBudget tokenBudget' : Int}
    (h : cacheKey session tokenBudget = cacheKey session' tokenBudget') :
    assembleContext session tokenBudget = assembleContext session' tokenBudget' := by
  simp only [cacheKey, CacheKey.mk.injEq] at h
  rcases h with ⟨_, hmessages, hsummary, hbudget⟩
  have hraw : (session.messages.map fun m => (⟨m.role, m.content⟩ : Message)) =
      session'.messages.map fun m => ⟨m.role, m.content⟩ := by
    have hmap := congrArg (List.map fun p => (⟨p.2.1, p.2.2⟩ : Message)) hmessages
    simpa [Function.comp_def] using hmap
  have hsum : summaryMessage session = summaryMessage session' := by
    have hmap := congrArg (Option.map fun p =>
      (⟨"system", "Summary of earlier conversation: " ++ p.2⟩ : Message)) hsummary
    simpa [summaryMessage, Function.comp_def] using hmap
  simp only [assembleContext, hraw, hsum, hbudget]

/-! ## A run of calls -/

/-- A call of `assemble`. -/
structure AssembleCall where
  session : Session
  tokenBudget : Int

namespace AssembleCall

def key (call : AssembleCall) : CacheKey := cacheKey call.session call.tokenBudget

/-- What the call is to return. -/
def context (call : AssembleCall) : AssembledContext :=
  assembleContext call.session call.tokenBudget

end AssembleCall

namespace ContextCache

open Recency

variable {cache : ContextCache} {calls : List AssembleCall} {call : AssembleCall} {n : ℕ}

/-- The cache after these calls. -/
def after (cache : ContextCache) (calls : List AssembleCall) : ContextCache :=
  calls.foldl (fun cache call => (cache.assemble call.session call.tokenBudget).2) cache

/-- A new cache with this bound. -/
def new (maxEntries : ℕ) : ContextCache := { maxEntries }

/-- The key of the call was used before, and fewer than `n` other keys since. -/
def Recent (n : ℕ) (earlier : List AssembleCall) (call : AssembleCall) : Prop :=
  call.key ∈ earlier.map (·.key) ∧ (usedSince call.key (earlier.map (·.key))).length < n

instance (n : ℕ) (earlier : List AssembleCall) (call : AssembleCall) :
    Decidable (Recent n earlier call) := inferInstanceAs (Decidable (_ ∧ _))

/-- Of the calls that follow `earlier` the ones that are no hits. -/
def missed (n : ℕ) : List AssembleCall → List AssembleCall → List AssembleCall
  | _, [] => []
  | earlier, call :: rest =>
    (if Recent n earlier call then [] else [call]) ++ missed n (earlier ++ [call]) rest

/-- The cache and the history of its calls. -/
structure Tracks (n : ℕ) (calls : List AssembleCall) (cache : ContextCache) : Prop where
  maxEntries : cache.maxEntries = n
  keys : cache.entries.keys = recent n (calls.map (·.key))
  values : ∀ call v, cache.entries.get? (AssembleCall.key call) = some v → v = call.context
  total : cache.hits + cache.misses = calls.length
  misses : cache.misses = (missed n [] calls).length
  compactions : cache.compactionCount = (missed n [] calls).countP (·.context.compacted)

theorem missed_snoc (earlier : List AssembleCall) : missed n earlier (calls ++ [call]) =
    missed n earlier calls ++ if Recent n (earlier ++ calls) call then [] else [call] := by
  induction calls generalizing earlier with
  | nil => simp [missed]
  | cons first rest ih => simp [missed, ih]

theorem Tracks.hit_iff (h : Tracks n calls cache) :
    (∃ v, cache.entries.get? call.key = some v) ↔ Recent n calls call := by
  rw [← Dict.mem_keys, h.keys, mem_recent_iff]
  exact Iff.rfl

/-- A hit. -/
theorem Tracks.hit (h : Tracks n calls cache) (hr : Recent n calls call) :
    (cache.assemble call.session call.tokenBudget).1 = call.context ∧
      Tracks n (calls ++ [call]) (cache.assemble call.session call.tokenBudget).2 := by
  rcases h.hit_iff.mpr hr with ⟨v, hv⟩
  have hcontains : cache.entries.contains call.key = true := (Dict.contains_iff _).mpr ⟨v, hv⟩
  have hassemble : cache.assemble call.session call.tokenBudget =
      (v, { cache with hits := cache.hits + 1, entries := cache.entries.moveToEnd call.key }) := by
    have hget : cache.entries.get? (cacheKey call.session call.tokenBudget) = some v := hv
    simp only [assemble, hget]
    rfl
  have hrecent : call.key ∈ recent n (calls.map (·.key)) := mem_recent_iff.mpr hr
  rw [hassemble]
  refine ⟨h.values call v hv, h.maxEntries, ?_, ?_, ?_, ?_, ?_⟩
  · rw [Dict.keys_moveToEnd _ hcontains, h.keys, List.map_append, List.map_singleton,
      recent_snoc_of_mem hrecent]
  · intro other w hw
    rw [Dict.get?_moveToEnd] at hw
    exact h.values other w hw
  · have htotal := h.total
    simp only [List.length_append, List.length_singleton]
    omega
  · simpa [missed_snoc, hr] using h.misses
  · simpa [missed_snoc, hr] using h.compactions

/-- A miss: the new entry goes to the end, and the first one goes if there is no room. -/
theorem Tracks.miss (h : Tracks n calls cache) (hr : ¬ Recent n calls call) :
    (cache.assemble call.session call.tokenBudget).1 = call.context ∧
      Tracks n (calls ++ [call]) (cache.assemble call.session call.tokenBudget).2 := by
  have hnone : cache.entries.get? call.key = none := by
    by_contra hsome
    exact hr (h.hit_iff.mp (Option.ne_none_iff_exists'.mp hsome))
  have hfresh : cache.entries.contains call.key = false :=
    (Dict.contains_eq_false _).mpr hnone
  have hnotin : call.key ∉ recent n (calls.map (·.key)) := fun hin => hr (mem_recent_iff.mp hin)
  have hadded : (cache.entries.set call.key call.context).contains call.key = true := by
    simp [Dict.contains]
  -- the new key is the last one before it is moved to the end
  have hkeys : ((cache.entries.set call.key call.context).moveToEnd call.key).keys =
      recent n (calls.map (·.key)) ++ [call.key] := by
    rw [Dict.keys_moveToEnd _ hadded, Dict.keys_set, hfresh, h.keys]
    simp only [Bool.false_eq_true, if_false]
    rw [List.erase_append_right _ hnotin, List.erase_cons_head, List.append_nil]
  have hvalues : ∀ other v,
      ((cache.entries.set call.key call.context).moveToEnd call.key).get?
        (AssembleCall.key other) = some v → v = other.context := by
    intro other v hv
    rw [Dict.get?_moveToEnd, Dict.get?_set] at hv
    split at hv
    · next heq =>
      cases hv
      exact (assembleContext_congr heq).symm
    · exact h.values other v hv
  have hassemble : cache.assemble call.session call.tokenBudget =
      (call.context, { cache with
        misses := cache.misses + 1
        compactionCount := cache.compactionCount + if call.context.compacted then 1 else 0
        entries :=
          if cache.maxEntries <
              ((cache.entries.set call.key call.context).moveToEnd call.key).keys.length then
            ((cache.entries.set call.key call.context).moveToEnd call.key).popFirst
          else (cache.entries.set call.key call.context).moveToEnd call.key }) := by
    have hget : cache.entries.get? (cacheKey call.session call.tokenBudget) = none := hnone
    simp only [assemble, hget]
    rfl
  rw [hassemble]
  refine ⟨rfl, h.maxEntries, ?_, ?_, ?_, ?_, ?_⟩
  · rw [List.map_append, List.map_singleton, recent_snoc_of_notMem hnotin, h.maxEntries, hkeys]
    have hlen : (recent n (calls.map (·.key)) ++ [call.key]).length =
        (recent n (calls.map (·.key))).length + 1 := by simp
    have hle : (recent n (calls.map (·.key))).length ≤ n := by
      rw [length_recent]
      omega
    by_cases hfull : (recent n (calls.map (·.key))).length = n
    · rw [if_pos (by omega), Dict.keys_popFirst, hkeys, List.rtake, hlen, hfull,
        Nat.add_sub_cancel_left, List.drop_one]
    · rw [if_neg (by omega), hkeys, List.rtake_of_length_le (by omega)]
  · intro other v hv
    split at hv
    · exact hvalues other v (Dict.get?_of_popFirst _ hv)
    · exact hvalues other v hv
  · have htotal := h.total
    simp only [List.length_append, List.length_singleton]
    omega
  · simpa [missed_snoc, hr] using h.misses
  · simpa [missed_snoc, hr, List.countP_cons] using h.compactions

theorem after_snoc : cache.after (calls ++ [call]) =
    ((cache.after calls).assemble call.session call.tokenBudget).2 := by
  simp [after]

theorem after_tracks (n : ℕ) (calls : List AssembleCall) :
    Tracks n calls ((new n).after calls) := by
  induction calls using List.reverseRecOn with
  | nil => exact ⟨rfl, by simp [after, new, recent, Dict.keys, Dict.empty], by simp [after, new],
      rfl, rfl, rfl⟩
  | append_singleton calls call ih =>
    rw [after_snoc]
    by_cases hr : Recent n calls call
    · exact (ih.hit hr).2
    · exact (ih.miss hr).2

/-- After any calls, for any next one: it returns what `assemble_context` does, the keys kept
are the most recent distinct ones, it is a hit exactly where its key is among these, and the
counters count hits, misses and compacted misses. -/
theorem transparent_lru (maxEntries : ℕ) (calls : List AssembleCall) (call : AssembleCall) :
    let cache := (new maxEntries).after calls
    let keys := calls.map (·.key)
    let next := cache.assemble call.session call.tokenBudget
    next.1 = assembleContext call.session call.tokenBudget ∧
    cache.entries.keys = keys.dedup.rtake maxEntries ∧
    cache.entries.keys.length = min maxEntries keys.dedup.length ∧
    (next.2.hits = cache.hits + 1 ∧ next.2.misses = cache.misses ↔
      call.key ∈ keys ∧ (usedSince call.key keys).length < maxEntries) ∧
    cache.hits + cache.misses = calls.length ∧
    cache.misses = (missed maxEntries [] calls).length ∧
    cache.compactionCount = (missed maxEntries [] calls).countP (·.context.compacted) := by
  intro cache keys next
  have htracks := after_tracks maxEntries calls
  have hnext : next.1 = call.context ∧ Tracks maxEntries (calls ++ [call]) next.2 := by
    by_cases hr : Recent maxEntries calls call
    · exact htracks.hit hr
    · exact htracks.miss hr
  refine ⟨hnext.1, htracks.keys, ?_, ?_, htracks.total, htracks.misses, htracks.compactions⟩
  · rw [htracks.keys]
    exact length_recent
  · have hbefore := htracks.total
    have hafter := hnext.2.total
    have hmisses := hnext.2.misses
    rw [missed_snoc, List.length_append, ← htracks.misses, List.nil_append] at hmisses
    simp only [List.length_append, List.length_singleton] at hafter
    by_cases hr : Recent maxEntries calls call
    · rw [if_pos hr, List.length_nil] at hmisses
      refine iff_of_true ?_ hr
      show next.2.hits = ((new maxEntries).after calls).hits + 1 ∧
        next.2.misses = ((new maxEntries).after calls).misses
      omega
    · rw [if_neg hr, List.length_singleton] at hmisses
      refine iff_of_false ?_ hr
      show ¬ (next.2.hits = ((new maxEntries).after calls).hits + 1 ∧
        next.2.misses = ((new maxEntries).after calls).misses)
      omega

end ContextCache

end LlmHomeLab
