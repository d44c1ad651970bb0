import PierGateway.StatsRuns

/-!
# What the totals of a bucket count

A walk is a list of replies: each call carries the token of the reply before it, and the
walk ends at an error, at a reply that does not continue, or at the cap. The totals are
those of the objects in the replies. They are marked as a lower bound at the cap alone,
so a reply that has more objects and no token to ask for them passes for the end.
-/
namespace PierGateway.WebUI
open GoStrings Interaction

abbrev PageReply := Except Str ListObjectsOutput

/-- The token a reply hands to the next call. -/
def tokenAfter : PageReply → Str
  | .ok page => page.nextContinuationToken.getD []
  | .error _ => []

/-- The calls of a walk that is given these replies. -/
def walkCalls (bucket : Str) : Str → List PageReply → List Call
  | _, [] => []
  | token, reply :: replies =>
      ⟨.listObjects bucket [] [] token statsPageSize, reply⟩ ::
        walkCalls bucket (tokenAfter reply) replies

/-- A reply that says there is more and how to ask for it. -/
def Continues (reply : PageReply) : Prop :=
  ∃ page token, reply = .ok page ∧ page.isTruncated = some true ∧
    page.nextContinuationToken = some token

/-- A reply that says there is more and not how to ask for it. -/
def LosesToken (reply : PageReply) : Prop :=
  ∃ page, reply = .ok page ∧ page.isTruncated = some true ∧ page.nextContinuationToken = none

/-- A reply that says the listing is complete. -/
def Complete (reply : PageReply) : Prop :=
  ∃ page, reply = .ok page ∧ page.isTruncated ≠ some true

def objectsOf (replies : List PageReply) : List S3Object :=
  (replies.filterMap Except.toOption).flatMap ListObjectsOutput.contents

def sizeOf (objs : List S3Object) : ℤ := (objs.map fun obj => obj.size.getD 0).sum

/-- What a finished walk has to say about its replies. -/
structure ExactOrMarked (replies : List PageReply) (result : Except Str BucketStatsResponse) :
    Prop where
  pages : replies.length ≤ statsMaxPages
  continued : ∀ reply ∈ replies.dropLast, Continues reply
  error : ∀ err, result = .error err ↔ .error err ∈ replies
  objectCount : ∀ totals, result = .ok totals →
    totals.objectCount = ((objectsOf replies).length : ℤ).bmod (2 ^ 64)
  sizeBytes : ∀ totals, result = .ok totals →
    totals.sizeBytes = (sizeOf (objectsOf replies)).bmod (2 ^ 64)
  marked : ∀ totals, result = .ok totals → totals.truncated = false →
    ∃ reply, replies.getLast? = some reply ∧ Complete reply

/-! ### Pages -/

theorem sizeOf_cons (obj : S3Object) (objs : List S3Object) :
    sizeOf (obj :: objs) = obj.size.getD 0 + sizeOf objs := by
  rw [sizeOf, List.map_cons, List.sum_cons]
  rfl

theorem sizeOf_append (objs objs' : List S3Object) :
    sizeOf (objs ++ objs') = sizeOf objs + sizeOf objs' := by
  rw [sizeOf, List.map_append, List.sum_append]
  rfl

theorem reply_cases (reply : PageReply) :
    (∃ err, reply = .error err) ∨ Continues reply ∨ LosesToken reply ∨ Complete reply := by
  cases reply with
  | error err => exact .inl ⟨err, rfl⟩
  | ok page =>
      by_cases htrunc : page.isTruncated = some true
      · cases htoken : page.nextContinuationToken with
        | none => exact .inr (.inr (.inl ⟨page, rfl, htrunc, htoken⟩))
        | some token => exact .inr (.inl ⟨page, token, rfl, htrunc, htoken⟩)
      · exact .inr (.inr (.inr ⟨page, rfl, htrunc⟩))

theorem LosesToken.not_continues {reply : PageReply} (h : LosesToken reply) : ¬Continues reply := by
  obtain ⟨page, rfl, _, hnone⟩ := h
  intro hgo
  obtain ⟨page', token, hpage, _, hsome⟩ := hgo
  obtain rfl := Except.ok.inj hpage
  rw [hnone] at hsome
  cases hsome

theorem not_continues_error (err : Str) : ¬Continues (.error err) := by
  intro hgo
  obtain ⟨page, token, hpage, _⟩ := hgo
  cases hpage

theorem addObjects_objectCount (objs : List S3Object) {resp : BucketStatsResponse} {n : ℤ}
    (h : resp.objectCount = n.bmod (2 ^ 64)) :
    (objs.foldl BucketStatsResponse.addObject resp).objectCount =
      (n + objs.length).bmod (2 ^ 64) := by
  induction objs generalizing resp n with
  | nil => simpa using h
  | cons obj objs ih =>
      have hone : (resp.addObject obj).objectCount = (n + 1).bmod (2 ^ 64) := by
        change add64 resp.objectCount 1 = _
        rw [add64, h, Int.bmod_add_bmod]
      rw [List.foldl_cons, ih hone, List.length_cons]
      congr 1
      push_cast
      omega

theorem addObjects_sizeBytes (objs : List S3Object) {resp : BucketStatsResponse} {n : ℤ}
    (h : resp.sizeBytes = n.bmod (2 ^ 64)) :
    (objs.foldl BucketStatsResponse.addObject resp).sizeBytes =
      (n + sizeOf objs).bmod (2 ^ 64) := by
  induction objs generalizing resp n with
  | nil => simpa [sizeOf] using h
  | cons obj objs ih =>
      have hone : (resp.addObject obj).sizeBytes = (n + obj.size.getD 0).bmod (2 ^ 64) := by
        change add64 resp.sizeBytes (obj.size.getD 0) = _
        rw [add64, h, Int.bmod_add_bmod]
      rw [List.foldl_cons, ih hone, sizeOf_cons]
      congr 1
      omega

theorem addObjects_truncated (objs : List S3Object) (resp : BucketStatsResponse) :
    (objs.foldl BucketStatsResponse.addObject resp).truncated = resp.truncated := by
  induction objs generalizing resp with
  | nil => rfl
  | cons obj objs ih => exact ih (resp.addObject obj)

/-! ### Walks -/

section
variable {bucket token : Str} {pages : ℕ} {resp : BucketStatsResponse} {replies : List PageReply}
  {result : Except Str BucketStatsResponse}

theorem walkCalls_eq_nil (h : walkCalls bucket token replies = []) : replies = [] := by
  cases replies with
  | nil => rfl
  | cons reply replies => cases h

theorem length_walkCalls (bucket : Str) (replies : List PageReply) :
    ∀ token : Str, (walkCalls bucket token replies).length = replies.length := by
  induction replies with
  | nil =>
      intro token
      rfl
  | cons reply replies ih =>
      intro token
      rw [walkCalls, List.length_cons, List.length_cons, ih]

/-- The next call of a walk, and how the walk goes on with the reply. -/
theorem walkPages_succ (bucket : Str) (pages : ℕ) (token : Str) (resp : BucketStatsResponse) :
    ∃ next : PageReply → Prog Op Reply (Except Str BucketStatsResponse),
      walkPages bucket (pages + 1) token resp =
        .call (.listObjects bucket [] [] token statsPageSize) next ∧
      (∀ err, next (.error err) = .done (.error err)) ∧
      (∀ page, Continues (.ok page) → next (.ok page) = walkPages bucket pages
        (tokenAfter (.ok page)) (page.contents.foldl BucketStatsResponse.addObject resp)) ∧
      ∀ page, ¬Continues (.ok page) →
        next (.ok page) = .done (.ok (page.contents.foldl BucketStatsResponse.addObject resp)) := by
  refine ⟨_, rfl, ?_, ?_, ?_⟩
  · intro err
    rfl
  · intro page hpage
    obtain ⟨page', token', hpage', htrunc, htoken⟩ := hpage
    obtain rfl := Except.ok.inj hpage'
    simp only [htrunc, htoken, Option.getD_some, tokenAfter]
  · intro page hpage
    cases htrunc : page.isTruncated.getD false with
    | false => simp only [htrunc]
    | true =>
        have hsome : page.isTruncated = some true := by
          cases h : page.isTruncated with
          | none => simp [h] at htrunc
          | some b => simpa [h] using htrunc
        cases htoken : page.nextContinuationToken with
        | none => simp only [htrunc, htoken]
        | some token' => exact absurd ⟨page, token', rfl, hsome, htoken⟩ hpage

/-- Every run of a walk is given by its replies, at most one for each page that is left. -/
theorem walkPages_calls {l : List Call} {p : Prog Op Reply (Except Str BucketStatsResponse)}
    (h : (walkPages bucket pages token resp).After l p) :
    ∃ replies, l = walkCalls bucket token replies ∧ replies.length ≤ pages := by
  induction pages generalizing token resp l with
  | zero =>
      obtain ⟨rfl, _⟩ := Prog.after_done h
      exact ⟨[], rfl, Nat.le_refl 0⟩
  | succ pages ih =>
      obtain ⟨next, hwalk, herror, hmore, hlast⟩ := walkPages_succ bucket pages token resp
      rw [hwalk] at h
      rcases Prog.after_call h with ⟨rfl, _⟩ | ⟨reply, l', rfl, hrest⟩
      · exact ⟨[], rfl, Nat.zero_le _⟩
      · have htail : ∃ replies, l' = walkCalls bucket (tokenAfter reply) replies ∧
            replies.length ≤ pages := by
          cases reply with
          | error err =>
              rw [herror] at hrest
              obtain ⟨rfl, _⟩ := Prog.after_done hrest
              exact ⟨[], rfl, Nat.zero_le pages⟩
          | ok page =>
              by_cases hpage : Continues (.ok page)
              · rw [hmore page hpage] at hrest
                exact ih hrest
              · rw [hlast page hpage] at hrest
                obtain ⟨rfl, _⟩ := Prog.after_done hrest
                exact ⟨[], rfl, Nat.zero_le pages⟩
        obtain ⟨replies, rfl, hlen⟩ := htail
        exact ⟨reply :: replies, rfl, Nat.succ_le_succ hlen⟩

/-- What a walk that started from the totals `n` and `k` comes to. -/
structure WalkedTo (n k : ℤ) (replies : List PageReply) (result : Except Str BucketStatsResponse) :
    Prop where
  continued : ∀ reply ∈ replies.dropLast, Continues reply
  error : ∀ err, result = .error err ↔ .error err ∈ replies
  objectCount : ∀ totals, result = .ok totals →
    totals.objectCount = (n + (objectsOf replies).length).bmod (2 ^ 64)
  sizeBytes : ∀ totals, result = .ok totals →
    totals.sizeBytes = (k + sizeOf (objectsOf replies)).bmod (2 ^ 64)
  unmarked : ∀ totals, result = .ok totals →
    (totals.truncated = false ↔ ∃ reply, replies.getLast? = some reply ∧ ¬Continues reply)

section
variable {n k : ℤ}

theorem WalkedTo.capped (hcount : resp.objectCount = n.bmod (2 ^ 64))
    (hsize : resp.sizeBytes = k.bmod (2 ^ 64)) :
    WalkedTo n k [] (.ok { resp with truncated := true }) := by
  refine ⟨by simp, by simp, ?_, ?_, ?_⟩ <;>
    · intro totals htotals
      obtain rfl := Except.ok.inj htotals
      simp [objectsOf, sizeOf, hcount, hsize]

theorem WalkedTo.failed (err : Str) : WalkedTo n k [.error err] (.error err) := by
  refine ⟨by simp, by simp [eq_comm], ?_, ?_, ?_⟩ <;>
    · intro totals htotals
      cases htotals

theorem WalkedTo.last {page : ListObjectsOutput} (hpage : ¬Continues (.ok page))
    (hcount : resp.objectCount = n.bmod (2 ^ 64)) (hsize : resp.sizeBytes = k.bmod (2 ^ 64))
    (hflag : resp.truncated = false) :
    WalkedTo n k [.ok page] (.ok (page.contents.foldl BucketStatsResponse.addObject resp)) := by
  have hobjects : objectsOf [.ok page] = page.contents := List.append_nil _
  refine ⟨by simp, by simp, ?_, ?_, ?_⟩
  · intro totals htotals
    obtain rfl := Except.ok.inj htotals
    rw [hobjects]
    exact addObjects_objectCount page.contents hcount
  · intro totals htotals
    obtain rfl := Except.ok.inj htotals
    rw [hobjects]
    exact addObjects_sizeBytes page.contents hsize
  · intro totals htotals
    obtain rfl := Except.ok.inj htotals
    rw [addObjects_truncated]
    simp [hflag, hpage]

theorem WalkedTo.cons {page : ListObjectsOutput} (hpage : Continues (.ok page))
    (h : WalkedTo (n + page.contents.length) (k + sizeOf page.contents) replies result) :
    WalkedTo n k (.ok page :: replies) result := by
  have hobjects : objectsOf (.ok page :: replies) = page.contents ++ objectsOf replies := rfl
  refine ⟨?_, ?_, ?_, ?_, ?_⟩
  · intro reply hreply
    cases replies with
    | nil => simp at hreply
    | cons reply' replies =>
        rw [List.dropLast_cons_cons] at hreply
        rcases List.mem_cons.mp hreply with rfl | hmem
        · exact hpage
        · exact h.continued reply hmem
  · intro err
    rw [h.error err]
    simp
  · intro totals htotals
    rw [h.objectCount totals htotals, hobjects, List.length_append]
    congr 1
    push_cast
    omega
  · intro totals htotals
    rw [h.sizeBytes totals htotals, hobjects, sizeOf_append]
    congr 1
    omega
  · intro totals htotals
    rw [h.unmarked totals htotals]
    cases replies with
    | nil => simp [hpage]
    | cons reply' replies => rw [List.getLast?_cons_cons]

theorem WalkedTo.getLast?_of_not_continues (h : WalkedTo n k replies result) {reply : PageReply}
    (hmem : reply ∈ replies) (hstop : ¬Continues reply) : replies.getLast? = some reply := by
  rcases List.eq_nil_or_concat replies with rfl | ⟨init, last, rfl⟩
  · cases hmem
  · rw [List.concat_eq_append] at hmem ⊢
    rcases List.mem_append.mp hmem with hinit | hlast
    · exact absurd (h.continued reply (by simpa using hinit)) hstop
    · rw [List.getLast?_append, List.mem_singleton.mp hlast]
      rfl

/-- What a finished walk comes to: the induction follows the pages that are left. -/
theorem walkPages_walked (hcount : resp.objectCount = n.bmod (2 ^ 64))
    (hsize : resp.sizeBytes = k.bmod (2 ^ 64)) (hflag : resp.truncated = false)
    (h : (walkPages bucket pages token resp).After (walkCalls bucket token replies)
      (.done result)) :
    WalkedTo n k replies result := by
  induction pages generalizing token resp replies n k with
  | zero =>
      obtain ⟨hnil, hresult⟩ := Prog.after_done h
      obtain rfl := walkCalls_eq_nil hnil
      obtain rfl := Prog.done.inj hresult
      exact .capped hcount hsize
  | succ pages ih =>
      obtain ⟨next, hwalk, herror, hmore, hlast⟩ := walkPages_succ bucket pages token resp
      rw [hwalk] at h
      rcases Prog.after_call h with ⟨_, hdone⟩ | ⟨reply, l', hcalls, hrest⟩
      · cases hdone
      · cases replies with
        | nil => cases hcalls
        | cons reply' replies =>
            obtain ⟨hhead, rfl⟩ := List.cons.inj hcalls
            obtain rfl : reply' = reply := eq_of_heq (Sigma.mk.inj hhead).2
            cases reply' with
            | error err =>
                rw [herror] at hrest
                obtain ⟨hnil, hresult⟩ := Prog.after_done hrest
                obtain rfl := walkCalls_eq_nil hnil
                obtain rfl := Prog.done.inj hresult
                exact .failed err
            | ok page =>
                by_cases hpage : Continues (.ok page)
                · rw [hmore page hpage] at hrest
                  refine .cons hpage (ih ?_ ?_ ?_ hrest)
                  · exact addObjects_objectCount page.contents hcount
                  · exact addObjects_sizeBytes page.contents hsize
                  · rw [addObjects_truncated, hflag]
                · rw [hlast page hpage] at hrest
                  obtain ⟨hnil, hresult⟩ := Prog.after_done hrest
                  obtain rfl := walkCalls_eq_nil hnil
                  obtain rfl := Prog.done.inj hresult
                  exact .last hpage hcount hsize hflag

end

theorem walkPages_ends (bucket : Str) (stream : ℕ → PageReply) (pages : ℕ) :
    ∀ (i : ℕ) (token : Str) (resp : BucketStatsResponse), ∃ n result,
      (walkPages bucket pages token resp).After
        (walkCalls bucket token ((List.range' i n).map stream)) (.done result) := by
  induction pages with
  | zero =>
      intro i token resp
      exact ⟨0, _, .nil _⟩
  | succ pages ih =>
      intro i token resp
      obtain ⟨next, hwalk, herror, hmore, hlast⟩ := walkPages_succ bucket pages token resp
      have hrest : ∃ n result, (next (stream i)).After
          (walkCalls bucket (tokenAfter (stream i)) ((List.range' (i + 1) n).map stream))
          (.done result) := by
        cases hreply : stream i with
        | error err =>
            rw [herror]
            exact ⟨0, _, .nil _⟩
        | ok page =>
            by_cases hpage : Continues (.ok page)
            · rw [hmore page hpage]
              exact ih (i + 1) _ _
            · rw [hlast page hpage]
              exact ⟨0, _, .nil _⟩
      obtain ⟨n, result, hafter⟩ := hrest
      refine ⟨n + 1, result, ?_⟩
      rw [hwalk, List.range'_succ, List.map_cons]
      exact .cons hafter

end

/-! ### The totals of a bucket -/

/-- Of a walk that has ended the totals are exact, or marked as a lower bound, if and only if no
reply lost its token. -/
theorem WalkedTo.exactOrMarked_iff {replies : List PageReply}
    {result : Except Str BucketStatsResponse} (hlen : replies.length ≤ statsMaxPages)
    (hwalked : WalkedTo 0 0 replies result) :
    ExactOrMarked replies result ↔ ∀ reply ∈ replies, ¬LosesToken reply := by
  constructor
  · intro hexact reply hreply hlose
    have hstop := hlose.not_continues
    have hlast := hwalked.getLast?_of_not_continues hreply hstop
    obtain ⟨page, rfl, htrunc, _⟩ := hlose
    cases result with
    | error err =>
        have herr := hwalked.getLast?_of_not_continues ((hwalked.error err).mp rfl)
          (not_continues_error err)
        rw [hlast] at herr
        cases herr
    | ok totals =>
        have hflag := (hwalked.unmarked totals rfl).mpr ⟨_, hlast, hstop⟩
        obtain ⟨reply, hreply', page', rfl, hcomplete⟩ := hexact.marked totals rfl hflag
        obtain rfl := Except.ok.inj (Option.some.inj (hlast.symm.trans hreply'))
        exact hcomplete htrunc
  · intro hkeep
    refine ⟨hlen, hwalked.continued, hwalked.error, ?_, ?_, ?_⟩
    · intro totals htotals
      simpa only [zero_add] using hwalked.objectCount totals htotals
    · intro totals htotals
      simpa only [zero_add] using hwalked.sizeBytes totals htotals
    · intro totals htotals hflag
      obtain ⟨reply, hlast, hstop⟩ := (hwalked.unmarked totals htotals).mp hflag
      have hmem := List.mem_of_getLast? hlast
      rcases reply_cases reply with ⟨err, rfl⟩ | hgo | hlose | hcomplete
      · have herr := (hwalked.error err).mpr hmem
        rw [htotals] at herr
        cases herr
      · exact absurd hgo hstop
      · exact absurd hlose (hkeep reply hmem)
      · exact ⟨reply, hlast, hcomplete⟩

/-- The walk makes at most fifty calls and ends on every stream of replies; its totals are
exact, or marked as a lower bound, if and only if no reply loses its token. -/
theorem computeBucketStats_exactOrMarked (a : API) (bucket : Str) :
    (∀ l p, (a.computeBucketStats bucket).After l p →
      ∃ replies, l = walkCalls bucket [] replies ∧ replies.length ≤ statsMaxPages) ∧
    (∀ stream : ℕ → PageReply, ∃ n result, (a.computeBucketStats bucket).After
      (walkCalls bucket [] ((List.range n).map stream)) (.done result)) ∧
    ∀ replies result,
      (a.computeBucketStats bucket).After (walkCalls bucket [] replies) (.done result) →
      (ExactOrMarked replies result ↔ ∀ reply ∈ replies, ¬LosesToken reply) := by
  refine ⟨?_, ?_, ?_⟩
  · intro l p h
    exact walkPages_calls h
  · intro stream
    obtain ⟨n, result, hafter⟩ := walkPages_ends bucket stream statsMaxPages 0 []
      { bucket := bucket, quotaBytes := a.quotaFor bucket }
    rw [← List.range_eq_range'] at hafter
    exact ⟨n, result, hafter⟩
  · intro replies result h
    have hwalked : WalkedTo 0 0 replies result := walkPages_walked rfl rfl rfl h
    have hlen : replies.length ≤ statsMaxPages := by
      obtain ⟨replies', hcalls, hle⟩ := walkPages_calls h
      have := congrArg List.length hcalls
      rw [length_walkCalls, length_walkCalls] at this
      omega
    exact hwalked.exactOrMarked_iff hlen

/-- One complete page of two objects. -/
def twoObjects : PageReply :=
  .ok { contents := [{ key := some (str "k"), size := some 3 }, { key := some (str "l") }] }

theorem computeBucketStats_twoObjects :
    ∃ result, ((⟨true, none⟩ : API).computeBucketStats (str "b")).After
      (walkCalls (str "b") [] [twoObjects]) (.done result) ∧ ExactOrMarked [twoObjects] result := by
  have hrun : ((⟨true, none⟩ : API).computeBucketStats (str "b")).After
      (walkCalls (str "b") [] [twoObjects]) (.done _) := .cons (.nil _)
  refine ⟨_, hrun, ?_⟩
  apply ((computeBucketStats_exactOrMarked ⟨true, none⟩ (str "b")).2.2 _ _ hrun).mpr
  intro reply hreply hlose
  obtain rfl := List.mem_singleton.mp hreply
  obtain ⟨page, hpage, htrunc, _⟩ := hlose
  obtain rfl := Except.ok.inj hpage
  cases htrunc

/-- One page that says there is more and brings no token. -/
def tokenless : PageReply := .ok { isTruncated := some true }

theorem computeBucketStats_tokenless :
    ¬ ∀ (a : API) (bucket : Str) (replies : List PageReply)
      (result : Except Str BucketStatsResponse),
      (a.computeBucketStats bucket).After (walkCalls bucket [] replies) (.done result) →
      ExactOrMarked replies result := by
  intro h
  have hexact := h { hasBackend := true } (str "b") [tokenless] _ (.cons (.nil _))
  obtain ⟨reply, hlast, page, rfl, hcomplete⟩ := hexact.marked _ rfl rfl
  obtain rfl := Except.ok.inj (Option.some.inj hlast)
  exact hcomplete rfl

end PierGateway.WebUI
