/-
What is left of a story when `create_story` is called until it answers.

# What is promised

Called again after every error, with the same arguments, until it answers
ok or empty, `create_story` leaves one story with the summary under the
epic, linked to every issue it depends on (`Converged`).

# Where it is kept

The search at the start is the only guard. Once the story is there, no
later call sends a link, so that the links are those of the call that
created the story: the ones sent before a request of that call failed,
and that one too if it took effect (`linkedAfter`). The story converges
exactly if these are all it needs, or if it had converged before the
first call (`Recovered`, `converged_iff`).
-/
import SdlcOs.IssueTracker.Client

namespace SdlcOs.IssueTracker

-- ==== promise

/-- The issue is this story, under its epic. -/
def Story.Is (story : Story) (i : Issue) : Prop :=
  i.fields.project = story.projectKey ∧ i.fields.issueType = "Story" ∧
    i.fields.summary = story.summary ∧ i.fields.epic.key = story.epicKey

instance (story : Story) : DecidablePred story.Is := fun _ =>
  inferInstanceAs (Decidable (_ ∧ _ ∧ _ ∧ _))

/-- One such story, linked to all it depends on. -/
def Converged (story : Story) (s : Server) : Prop :=
  ∃ i, s.issues.filter (fun i => story.Is i) = [i] ∧
    ∀ dep ∈ story.deps, dep ∈ i.blockedBy

/-- An answer after which nobody calls again. -/
def final : Except Exn Wire → Bool
  | .ok (.ok ..) => true
  | .ok (.empty ..) => true
  | _ => false

/-- Calls of `create_story` until one answers ok or empty. -/
inductive Retried (jira : Jira) (config : TenantJiraConfig)
    (fates : Nat → Fate) (story : Story) : World → World → Prop where
  | done {w : World}
      (h : final (createStory jira config fates story w).1 = true) :
      Retried jira config fates story w
        (createStory jira config fates story w).2
  | again {w w' : World}
      (h : final (createStory jira config fates story w).1 = false)
      (rest : Retried jira config fates story
        (createStory jira config fates story w).2 w') :
      Retried jira config fates story w w'

-- ==== condition

/-- The search of a call finds a story. -/
def Found (story : Story) (s : Server) : Prop :=
  (s.search (findClauses story.projectKey "Story" story.summary
    (some story.epicKey))).isSome = true

instance (story : Story) (s : Server) : Decidable (Found story s) :=
  inferInstanceAs (Decidable (_ = true))

/-- The number of the request that creates the story, if the search of the
next call is request `i` and finds nothing: a search without an answer is
made again, and so is one before a create request without effect. -/
inductive Creates (fates : Nat → Fate) : Nat → Nat → Prop where
  | unseen {i j : Nat} (h : fates i ≠ .answered)
      (rest : Creates fates (i + 1) j) : Creates fates i j
  | refused {i j : Nat} (h : fates i = .answered)
      (htook : (fates (i + 1)).took = false)
      (rest : Creates fates (i + 2) j) : Creates fates i j
  | made {i : Nat} (h : fates i = .answered)
      (htook : (fates (i + 1)).took = true) : Creates fates i (i + 1)

/-- The links that take effect, from request `i` on: the first request
that fails is the last one. -/
def linksMade (fates : Nat → Fate) : Nat → List String → List String
  | _, [] => []
  | i, dep :: deps =>
    match fates i with
    | .failed took _ => if took then [dep] else []
    | _ => dep :: linksMade fates (i + 1) deps

/-- The links of the call whose request `j` created the story: none,
unless its answer arrived. -/
def linkedAfter (fates : Nat → Fate) (j : Nat) (deps : List String) :
    List String :=
  if fates j = .answered then linksMade fates (j + 1) deps else []

/-- The story has converged already, or the call that creates it also
links it to all it depends on. -/
def Recovered (fates : Nat → Fate) (story : Story) (w : World) : Prop :=
  if Found story w.server then Converged story w.server
  else ∃ j, Creates fates w.sent j ∧
    ∀ dep ∈ story.deps, dep ∈ linkedAfter fates j story.deps

section Runs

variable {jira : Jira} {config : TenantJiraConfig} {fates : Nat → Fate}
  {story : Story} {w w' : World}

-- ==== one call

/-- What a call does: whether its answer is final, and the world after
it. -/
inductive Call (jira : Jira) (config : TenantJiraConfig)
    (fates : Nat → Fate) (story : Story) (w : World) : Bool → World → Prop
    where
  | misconfigured {e : Exn} (h : config.headers = .error e) :
      Call jira config fates story w false w
  | unseen (h : fates w.sent ≠ .answered) :
      Call jira config fates story w false ⟨w.server, w.sent + 1⟩
  | found (h : fates w.sent = .answered) (hfound : Found story w.server) :
      Call jira config fates story w true ⟨w.server, w.sent + 1⟩
  | fieldless {e : Exn} (h : fates w.sent = .answered)
      (hnone : ¬ Found story w.server)
      (hfields : storyFields config story = .error e) :
      Call jira config fates story w false ⟨w.server, w.sent + 1⟩
  | refused (h : fates w.sent = .answered) (hnone : ¬ Found story w.server)
      (htook : (fates (w.sent + 1)).took = false) :
      Call jira config fates story w false ⟨w.server, w.sent + 2⟩
  | created {fields : Fields} {last : Bool} {sent : Nat}
      (h : fates w.sent = .answered) (hnone : ¬ Found story w.server)
      (htook : (fates (w.sent + 1)).took = true)
      (hfields : storyFields config story = .ok fields) :
      Call jira config fates story w last
        ⟨⟨w.server.issues ++ [⟨jira.newKey w.server.issues, fields,
          linkedAfter fates (w.sent + 1) story.deps⟩]⟩, sent⟩

section Request

variable {u : Unit} {effect : Server → Server}

theorem request_answered (hheaders : config.headers = .ok u)
    (h : fates w.sent = .answered) :
    request config fates effect w =
      (.ok true, ⟨effect w.server, w.sent + 1⟩) := by
  rw [request, hheaders, h]
  rfl

theorem request_garbled (hheaders : config.headers = .ok u)
    (h : fates w.sent = .garbled) :
    request config fates effect w =
      (.ok false, ⟨effect w.server, w.sent + 1⟩) := by
  rw [request, hheaders, h]
  rfl

theorem request_failed (hheaders : config.headers = .ok u) {took : Bool}
    {why : Failure} (h : fates w.sent = .failed took why) :
    request config fates effect w = (.error (.tracker why.error),
      ⟨if took then effect w.server else w.server, w.sent + 1⟩) := by
  rw [request, hheaders, h]
  rfl

end Request

theorem link_new {issues : List Issue} {new : Issue}
    (hfresh : ∀ i ∈ issues, i.key ≠ new.key) (dep : String) :
    Server.link ⟨issues ++ [new]⟩ dep new.key =
      ⟨issues ++ [{ new with blockedBy := new.blockedBy ++ [dep] }]⟩ := by
  rw [Server.link, List.map_append, List.map_singleton, if_pos rfl]
  have hsame : ∀ i ∈ issues,
      (if i.key = new.key then
        { i with blockedBy := i.blockedBy ++ [dep] } else i) = i :=
    fun i hi => if_neg (hfresh i hi)
  rw [List.map_congr_left hsame, List.map_id']

theorem createLinks_server {u : Unit} (hheaders : config.headers = .ok u)
    {issues : List Issue} {new : Issue}
    (hfresh : ∀ i ∈ issues, i.key ≠ new.key) (deps : List String)
    (sent : Nat) :
    (createLinks config fates new.key deps
      ⟨⟨issues ++ [new]⟩, sent⟩).2.server =
      ⟨issues ++ [{ new with
        blockedBy := new.blockedBy ++ linksMade fates sent deps }]⟩ := by
  induction deps generalizing new sent with
  | nil =>
    rw [createLinks, linksMade, List.append_nil]
  | cons dep deps ih =>
    have hnext := @ih { new with blockedBy := new.blockedBy ++ [dep] }
      hfresh (sent + 1)
    rw [createLinks, createBlocksLink, linksMade]
    cases hfate : fates sent with
    | answered =>
      rw [request_answered hheaders hfate]
      show (createLinks config fates new.key deps
        ⟨Server.link _ dep new.key, sent + 1⟩).2.server = _
      rw [link_new hfresh, hnext]
      simp
    | garbled =>
      rw [request_garbled hheaders hfate]
      show (createLinks config fates new.key deps
        ⟨Server.link _ dep new.key, sent + 1⟩).2.server = _
      rw [link_new hfresh, hnext]
      simp
    | failed took why =>
      rw [request_failed hheaders hfate]
      cases took with
      | true => exact link_new hfresh dep
      | false =>
        show (⟨issues ++ [new]⟩ : Server) = _
        simp

theorem epicField_key {epicKey : String} {epic : EpicField}
    (h : epicField config epicKey = .ok epic) : epic.key = epicKey := by
  unfold epicField at h
  split at h
  · rw [← Except.ok.inj h]
    rfl
  · split at h
    · rw [← Except.ok.inj h]
      rfl
    · cases h

theorem storyFields_spec {fields : Fields}
    (h : storyFields config story = .ok fields) :
    fields.project = story.projectKey ∧ fields.issueType = "Story" ∧
      fields.summary = story.summary ∧ fields.epic.key = story.epicKey := by
  unfold storyFields at h
  split at h
  · cases h
  · next epic hepic =>
    have hkey := epicField_key hepic
    split at h
    · rw [← Except.ok.inj h]
      exact ⟨rfl, rfl, rfl, hkey⟩
    · split at h
      · rw [← Except.ok.inj h]
        exact ⟨rfl, rfl, rfl, hkey⟩
      · cases h

theorem createStory_of_error {e : Exn}
    (h : tryCreateStory jira config fates story w = (.error e, w')) :
    (createStory jira config fates story w).2 = w' ∧
      final (createStory jira config fates story w).1 = false := by
  rw [createStory, h]
  cases e <;> exact ⟨rfl, rfl⟩

theorem createStory_of_ok {answer : Wire}
    (h : tryCreateStory jira config fates story w = (.ok answer, w')) :
    createStory jira config fates story w = (.ok answer, w') := by
  rw [createStory, h]

theorem call_of_error {e : Exn}
    (h : tryCreateStory jira config fates story w = (.error e, w'))
    (hcall : Call jira config fates story w false w') :
    Call jira config fates story w
      (final (createStory jira config fates story w).1)
      (createStory jira config fates story w).2 := by
  obtain ⟨hworld, hfinal⟩ := createStory_of_error h
  rw [hworld, hfinal]
  exact hcall

theorem find_unseen (story : Story) {u : Unit}
    (hheaders : config.headers = .ok u)
    (hunseen : fates w.sent ≠ .answered) : ∃ e,
      findExisting config fates story.projectKey "Story" story.summary
        (some story.epicKey) w = (.error e, ⟨w.server, w.sent + 1⟩) := by
  rw [findExisting]
  cases hfate : fates w.sent with
  | answered => exact absurd hfate hunseen
  | garbled =>
    rw [request_garbled hheaders hfate]
    exact ⟨_, rfl⟩
  | failed took why =>
    rw [request_failed hheaders hfate]
    cases took <;> exact ⟨_, rfl⟩

theorem createNew_call {u : Unit} (hheaders : config.headers = .ok u)
    (hseen : fates w.sent = .answered) (hnone : ¬ Found story w.server)
    (h : tryCreateStory jira config fates story w =
      createNew jira config fates story ⟨w.server, w.sent + 1⟩) :
    Call jira config fates story w
      (final (createStory jira config fates story w).1)
      (createStory jira config fates story w).2 := by
  rw [createNew] at h
  cases hfields : storyFields config story with
  | error e =>
    rw [hfields] at h
    exact call_of_error h (.fieldless hseen hnone hfields)
  | ok fields =>
    rw [hfields] at h
    dsimp only at h
    have hfresh := jira.fresh w.server.issues
    -- the new issue, before its links
    let new : Issue := ⟨jira.newKey w.server.issues, fields, []⟩
    have hcreated : ∀ {last : Bool} {w' : World},
        (fates (w.sent + 1)).took = true → w'.server =
          ⟨w.server.issues ++ [{ new with
            blockedBy := linkedAfter fates (w.sent + 1) story.deps }]⟩ →
        Call jira config fates story w last w' := by
      intro last w' htook hserver
      obtain ⟨server, sent⟩ := w'
      rw [show server = _ from hserver]
      exact .created hseen hnone htook hfields
    cases hfate : fates (w.sent + 1) with
    | answered =>
      have htook : (fates (w.sent + 1)).took = true := by
        rw [hfate]
        rfl
      have hrequest : request config fates
          (·.create (jira.newKey w.server.issues) fields)
          ⟨w.server, w.sent + 1⟩ = (.ok true,
            ⟨⟨w.server.issues ++ [new]⟩, w.sent + 2⟩) :=
        request_answered hheaders hfate
      rw [hrequest] at h
      have hserver : (createLinks config fates new.key story.deps
          ⟨⟨w.server.issues ++ [new]⟩, w.sent + 2⟩).2.server =
          ⟨w.server.issues ++ [{ new with
            blockedBy := linkedAfter fates (w.sent + 1)
              story.deps }]⟩ := by
        rw [createLinks_server hheaders hfresh, linkedAfter, if_pos hfate]
        rfl
      cases hlinks : createLinks config fates new.key story.deps
          ⟨⟨w.server.issues ++ [new]⟩, w.sent + 2⟩ with
      | mk r w' =>
        rw [hlinks] at hserver
        dsimp only [readJson] at h
        rw [show createLinks config fates (jira.newKey w.server.issues)
          story.deps _ = _ from hlinks] at h
        cases r with
        | error e => exact call_of_error h (hcreated htook hserver)
        | ok u' =>
          rw [createStory_of_ok h]
          exact hcreated htook hserver
    | garbled =>
      have hrequest : request config fates
          (·.create (jira.newKey w.server.issues) fields)
          ⟨w.server, w.sent + 1⟩ = (.ok false,
            ⟨⟨w.server.issues ++ [new]⟩, w.sent + 2⟩) :=
        request_garbled hheaders hfate
      rw [hrequest] at h
      have hlinked : linkedAfter fates (w.sent + 1) story.deps = [] :=
        if_neg (by rw [hfate]; exact Fate.noConfusion)
      refine call_of_error h (hcreated (by rw [hfate]; rfl) ?_)
      rw [hlinked]
    | failed took why =>
      have hrequest : request config fates
          (·.create (jira.newKey w.server.issues) fields)
          ⟨w.server, w.sent + 1⟩ = (.error (.tracker why.error),
            ⟨if took then ⟨w.server.issues ++ [new]⟩ else w.server,
              w.sent + 2⟩) :=
        request_failed hheaders hfate
      rw [hrequest] at h
      cases took with
      | true =>
        have hlinked : linkedAfter fates (w.sent + 1) story.deps = [] :=
          if_neg (by rw [hfate]; exact Fate.noConfusion)
        refine call_of_error h (hcreated (by rw [hfate]; rfl) ?_)
        rw [hlinked]
        rfl
      | false =>
        exact call_of_error h (.refused hseen hnone
          (by rw [hfate]; rfl))

theorem call_of_createStory (jira : Jira) (config : TenantJiraConfig)
    (fates : Nat → Fate) (story : Story) (w : World) :
    Call jira config fates story w
      (final (createStory jira config fates story w).1)
      (createStory jira config fates story w).2 := by
  cases hheaders : config.headers with
  | error e =>
    have h : tryCreateStory jira config fates story w = (.error e, w) := by
      rw [tryCreateStory, findExisting, request, hheaders]
    exact call_of_error h (.misconfigured hheaders)
  | ok u =>
    by_cases hseen : fates w.sent = .answered
    · have hfind : findExisting config fates story.projectKey "Story"
          story.summary (some story.epicKey) w =
          (.ok (w.server.search (findClauses story.projectKey "Story"
            story.summary (some story.epicKey))),
            ⟨w.server, w.sent + 1⟩) := by
        rw [findExisting, request_answered hheaders hseen]
        rfl
      cases hsearch : w.server.search (findClauses story.projectKey
          "Story" story.summary (some story.epicKey)) with
      | some existing =>
        have h : ∃ answer, tryCreateStory jira config fates story w =
            (.ok answer, ⟨w.server, w.sent + 1⟩) ∧
              final (.ok answer) = true := by
          rw [tryCreateStory, hfind, hsearch]
          exact ⟨_, rfl, rfl⟩
        obtain ⟨answer, h, hfinal⟩ := h
        rw [createStory_of_ok h, hfinal]
        refine .found hseen ?_
        rw [Found, hsearch]
        rfl
      | none =>
        refine createNew_call hheaders hseen ?_ ?_
        · rw [Found, hsearch]
          exact Bool.false_ne_true
        · rw [tryCreateStory, hfind, hsearch]
    · obtain ⟨e, hfind⟩ := find_unseen story hheaders hseen
      have h : tryCreateStory jira config fates story w =
          (.error e, ⟨w.server, w.sent + 1⟩) := by
        rw [tryCreateStory, hfind]
      exact call_of_error h (.unseen hseen)

theorem found_of_mem {s : Server} {i : Issue} (hi : i ∈ s.issues)
    (h : story.Is i) : Found story s := by
  obtain ⟨hproject, htype, hsummary, hepic⟩ := h
  rw [Found, Server.search, Option.isSome_map, List.find?_isSome]
  refine ⟨i, hi, ?_⟩
  rw [List.all_eq_true]
  intro c hc
  rcases List.mem_append.1 hc with hc | hc
  · rcases List.mem_cons.1 hc with rfl | hc
    · exact decide_eq_true hproject
    · rcases List.mem_pair.1 hc with rfl | rfl
      · exact decide_eq_true htype
      · exact decide_eq_true hsummary
  · split at hc
    · obtain rfl := List.mem_singleton.1 hc
      exact decide_eq_true hepic
    · cases hc

/-- A story that was not found and is then created has converged exactly if
it was created with its links. -/
theorem converged_created {issues : List Issue} {key : String}
    {fields : Fields} {linked : List String}
    (hnone : ¬ Found story ⟨issues⟩)
    (hfields : storyFields config story = .ok fields) :
    Converged story ⟨issues ++ [⟨key, fields, linked⟩]⟩ ↔
      ∀ dep ∈ story.deps, dep ∈ linked := by
  have hold : issues.filter (fun i => story.Is i) = [] := by
    rw [List.filter_eq_nil_iff]
    intro i hi his
    exact hnone (found_of_mem hi (of_decide_eq_true his))
  have hnew : story.Is ⟨key, fields, linked⟩ := storyFields_spec hfields
  have hone : (issues ++ [(⟨key, fields, linked⟩ : Issue)]).filter
      (fun i => story.Is i) = [⟨key, fields, linked⟩] := by
    rw [List.filter_append, hold, List.nil_append,
      List.filter_singleton, decide_eq_true hnew]
    rfl
  constructor
  · rintro ⟨i, hi, hlinked⟩
    rw [hone] at hi
    rw [← List.singleton_inj.1 hi] at hlinked
    exact hlinked
  · intro hlinked
    exact ⟨_, hone, hlinked⟩

-- ==== runs

theorem creates_unseen {i j : Nat} (h : fates i ≠ .answered) :
    Creates fates i j ↔ Creates fates (i + 1) j := by
  constructor
  · intro hc
    cases hc with
    | unseen _ rest => exact rest
    | refused h' => exact absurd h' h
    | made h' => exact absurd h' h
  · exact .unseen h

theorem creates_refused {i j : Nat} (h : fates i = .answered)
    (htook : (fates (i + 1)).took = false) :
    Creates fates i j ↔ Creates fates (i + 2) j := by
  constructor
  · intro hc
    cases hc with
    | unseen h' => exact absurd h h'
    | refused _ _ rest => exact rest
    | made _ htook' =>
      rw [htook] at htook'
      cases htook'
  · exact .refused h htook

theorem creates_made {i j : Nat} (h : fates i = .answered)
    (htook : (fates (i + 1)).took = true) :
    Creates fates i j ↔ j = i + 1 := by
  constructor
  · intro hc
    cases hc with
    | unseen h' => exact absurd h h'
    | refused _ htook' =>
      rw [htook] at htook'
      cases htook'
    | made => rfl
  · intro hj
    rw [hj]
    exact .made h htook

theorem server_of_found {last : Bool}
    (h : Call jira config fates story w last w')
    (hfound : Found story w.server) : w'.server = w.server := by
  cases h with
  | misconfigured => rfl
  | unseen => rfl
  | found => rfl
  | fieldless => rfl
  | refused => rfl
  | created _ hnone => exact absurd hfound hnone

theorem retried_of_found (h : Retried jira config fates story w w')
    (hfound : Found story w.server) : w'.server = w.server := by
  induction h with
  | @done w =>
    exact server_of_found (call_of_createStory jira config fates story w)
      hfound
  | @again w w' _ _ ih =>
    have hserver := server_of_found
      (call_of_createStory jira config fates story w) hfound
    rw [ih (by rw [hserver]; exact hfound), hserver]

/-- Without the fields of a story there is no final answer but to find
it. -/
theorem fields_of_retried (h : Retried jira config fates story w w')
    (hnone : ¬ Found story w.server) :
    ∃ fields, storyFields config story = .ok fields := by
  induction h with
  | @done w hr =>
    have hcall := call_of_createStory jira config fates story w
    rw [hr] at hcall
    generalize (createStory jira config fates story w).2 = w' at hcall
    cases hcall with
    | found _ hfound => exact absurd hfound hnone
    | created _ _ _ hfields => exact ⟨_, hfields⟩
  | @again w w' hr _ ih =>
    have hcall := call_of_createStory jira config fates story w
    rw [hr] at hcall
    generalize (createStory jira config fates story w).2 = w'' at hcall ih
    cases hcall with
    | misconfigured => exact ih hnone
    | unseen => exact ih hnone
    | fieldless => exact ih hnone
    | refused => exact ih hnone
    | created _ _ _ hfields => exact ⟨_, hfields⟩

theorem linked_iff {i : Nat} {deps : List String}
    (h : fates i = .answered) (htook : (fates (i + 1)).took = true) :
    (∀ dep ∈ deps, dep ∈ linkedAfter fates (i + 1) deps) ↔
      ∃ j, Creates fates i j ∧ ∀ dep ∈ deps, dep ∈ linkedAfter fates j deps := by
  constructor
  · intro hlinked
    exact ⟨_, .made h htook, hlinked⟩
  · rintro ⟨j, hj, hlinked⟩
    rw [(creates_made h htook).1 hj] at hlinked
    exact hlinked

theorem converged_of_none (h : Retried jira config fates story w w')
    (hnone : ¬ Found story w.server) :
    Converged story w'.server ↔ ∃ j, Creates fates w.sent j ∧
      ∀ dep ∈ story.deps, dep ∈ linkedAfter fates j story.deps := by
  obtain ⟨fields, hfields⟩ := fields_of_retried h hnone
  induction h with
  | @done w hr =>
    have hcall := call_of_createStory jira config fates story w
    rw [hr] at hcall
    generalize (createStory jira config fates story w).2 = w' at hcall ⊢
    cases hcall with
    | found _ hfound => exact absurd hfound hnone
    | created hseen _ htook hfields' =>
      rw [converged_created hnone hfields']
      exact linked_iff hseen htook
  | @again w w' hr rest ih =>
    have hcall := call_of_createStory jira config fates story w
    rw [hr] at hcall
    generalize (createStory jira config fates story w).2 = w''
      at hcall rest ih
    cases hcall with
    | misconfigured => exact ih hnone
    | unseen hseen =>
      rw [ih hnone]
      exact exists_congr fun j => and_congr_left fun _ =>
        (creates_unseen hseen).symm
    | fieldless _ _ hfields' =>
      rw [hfields] at hfields'
      cases hfields'
    | refused hseen _ htook =>
      rw [ih hnone]
      exact exists_congr fun j => and_congr_left fun _ =>
        (creates_refused hseen htook).symm
    | created hseen _ htook hfields' =>
      rw [retried_of_found rest (found_of_mem
        (List.mem_append_right _ (List.mem_singleton_self _))
        (storyFields_spec hfields')), converged_created hnone hfields']
      exact linked_iff hseen htook

/-- Called until it answers ok or empty, `create_story` leaves the story as
promised exactly if it recovered. -/
theorem converged_iff (h : Retried jira config fates story w w') :
    Converged story w'.server ↔ Recovered fates story w := by
  unfold Recovered
  split
  · next hfound => rw [retried_of_found h hfound]
  · next hnone => exact converged_of_none h hnone

end Runs

namespace Sample

/-- A name longer than those of all issues. -/
def longKey (issues : List Issue) : String :=
  issues.foldr (fun i s => s ++ i.key) "N"

theorem length_longKey_pos (issues : List Issue) :
    0 < (longKey issues).length := by
  induction issues with
  | nil => exact Nat.one_pos
  | cons i issues ih =>
    show 0 < (longKey issues ++ i.key).length
    rw [String.length_append]
    omega

theorem length_longKey {issues : List Issue} {i : Issue}
    (hi : i ∈ issues) : i.key.length < (longKey issues).length := by
  induction issues with
  | nil => cases hi
  | cons i' issues ih =>
    show _ < (longKey issues ++ i'.key).length
    rw [String.length_append]
    have hsome := length_longKey_pos issues
    rcases List.mem_cons.1 hi with rfl | hi
    · omega
    · have := ih hi
      omega

/-- A site that goes on counting where it can. -/
def jira : Jira where
  newKey := fun issues =>
    if "PROJ-3" ∈ issues.map Issue.key then longKey issues else "PROJ-3"
  fresh := fun issues i hi heq => by
    split at heq
    · exact absurd (length_longKey hi) (by rw [heq]; exact Nat.lt_irrefl _)
    · next hnone => exact hnone (heq ▸ List.mem_map_of_mem hi)

def config : TenantJiraConfig where
  baseUrl := "https://site.atlassian.net"
  oauthBearerToken := some "token"

/-- A story that depends on another one. -/
def story : Story where
  projectKey := "PROJ"
  epicKey := "PROJ-1"
  summary := "Second"
  description := "After the first."
  size := "S"
  dependsOn := some ["PROJ-2"]

/-- The epic, and the other story. -/
def server : Server := ⟨
  [⟨"PROJ-1", ⟨"PROJ", "Epic", "Both", "", .parent "", none, []⟩, []⟩,
    ⟨"PROJ-2", ⟨"PROJ", "Story", "First", "", .parent "PROJ-1", none,
      ["size:S"]⟩, []⟩]⟩

/-- Jira is down for request 2, before it takes effect. -/
def fates (i : Nat) : Fate :=
  if i = 2 then .failed false (.status 503 "" none) else .answered

/-- Jira is down for the first create request, and the answer to the first
link request is lost after it took effect. -/
def unlucky : Nat → Fate
  | 1 => .failed false (.status 503 "" none)
  | 4 => .failed true (.unreachable
      "https://site.atlassian.net/rest/api/3/issueLink" "timed out")
  | _ => .answered

end Sample

/-- Not created by the first call, created and linked by the second, found
by the third. -/
theorem converged_iff_unlucky : ∃ w', Retried Sample.jira Sample.config
      Sample.unlucky Sample.story ⟨Sample.server, 0⟩ w' ∧ w'.sent = 6 ∧
    Converged Sample.story w'.server := by
  have hrun : Retried Sample.jira Sample.config Sample.unlucky Sample.story
      ⟨Sample.server, 0⟩ _ :=
    .again (by decide +kernel) (.again (by decide +kernel)
      (.done (by decide +kernel)))
  refine ⟨_, hrun, by decide +kernel, (converged_iff hrun).2 ?_⟩
  rw [Recovered, if_neg (by decide +kernel)]
  exact ⟨3, .refused rfl rfl (.made rfl rfl), by decide +kernel⟩

/-- The link fails once and is never made. -/
theorem link_lost : ∃ w', Retried Sample.jira Sample.config Sample.fates
      Sample.story ⟨Sample.server, 0⟩ w' ∧
    ¬ Converged Sample.story w'.server := by
  refine ⟨_, .again (by decide +kernel) (.done (by decide +kernel)), ?_⟩
  rintro ⟨i, hi, hlinked⟩
  have hnone : ((createStory Sample.jira Sample.config Sample.fates
      Sample.story (createStory Sample.jira Sample.config Sample.fates
        Sample.story ⟨Sample.server, 0⟩).2).2.server.issues.filter
      (fun i => Sample.story.Is i)).map Issue.blockedBy = [[]] := by
    decide +kernel
  rw [hi] at hnone
  have hdep := hlinked "PROJ-2" List.mem_cons_self
  rw [List.singleton_inj.1 hnone] at hdep
  cases hdep

end SdlcOs.IssueTracker
