import Unbundle.Proofs.Sealed.Keyring

/-!
All the keys of a run, asked for directly or on the way into sealed packages. Main statement: the
ring cannot be told from deriving every key anew, but for the number of derivations.
-/

namespace Unbundle.Sealed

/-- What a ring is used for: giving a key, or opening a package. -/
inductive Use where
  | key (appId salt : Bytes)
  | package (appId bytes : Bytes)

/-- A key that was asked for, and the answer. -/
structure Request where
  appId : Bytes
  salt : Bytes
  answer : Except KeyDefect Bytes

/-- The answer that a ring gives now. -/
def Keyring.ask (ring : Keyring) (settings : Settings) (appId salt : Bytes) : Request where
  appId
  salt
  answer := (ring.resolve settings appId salt).1

namespace Use

/-- The request that a use makes. A package without a salt is refused before its key is asked for. -/
def request? (settings : Settings) (ring : Keyring) : Use → Option Request
  | key appId salt => some (ring.ask settings appId salt)
  | package appId bytes =>
    (readSalt settings bytes).toOption.map fun salt => ring.ask settings appId salt

def after (settings : Settings) (ring : Keyring) : Use → Keyring
  | key appId salt => (ring.resolve settings appId salt).2
  | package appId bytes => (openPackage ring settings appId bytes).2

end Use

namespace Keyring

/-- The ring after some uses. -/
def afterAll (settings : Settings) (ring : Keyring) (uses : List Use) : Keyring :=
  uses.foldl (Use.after settings) ring

/-- The requests that some uses make, in order. -/
def requests (settings : Settings) (ring : Keyring) : List Use → List Request
  | [] => []
  | use :: uses =>
    (use.request? settings ring).toList ++ requests settings (use.after settings ring) uses

end Keyring

namespace Request

variable {settings : Settings} {earlier requests : List Request} {request : Request}

/-- The salts of the keys that were given for an app. -/
def grantedSalts (requests : List Request) (appId : Bytes) : List Bytes :=
  (requests.filter fun request => request.answer.isOk && request.appId = appId).map salt

/-- Whether a request is granted to an app that has been given no key, or one for another salt
last. -/
def Renews (earlier : List Request) (request : Request) : Prop :=
  request.answer.isOk = true ∧
    (grantedSalts earlier request.appId).getLast? ≠ some request.salt

instance (earlier : List Request) : DecidablePred (Renews earlier) :=
  fun _ => inferInstanceAs (Decidable (_ ∧ _))

/-- How many requests renew a key, each against the ones before it. -/
def renewals (requests : List Request) : Nat :=
  requests.zipIdx.countP fun (request, place) => Renews (requests.take place) request

/-- What a request comes to when every key is derived anew. -/
def answerAnew (settings : Settings) (appId salt : Bytes) : Except KeyDefect Bytes :=
  if isAppId appId then deriveKey settings appId salt
  else if appId = [] then .error .noAppId
  else .error (.invalidAppId appId)

private theorem renewals_concat (requests : List Request) (request : Request) :
    renewals (requests ++ [request]) =
      renewals requests + if Renews requests request then 1 else 0 := by
  have earlier : requests.zipIdx.countP (fun (request', place) =>
      decide (Renews ((requests ++ [request]).take place) request')) = renewals requests := by
    apply List.countP_congr
    rintro ⟨request', place⟩ member
    have bound : place ≤ requests.length := by
      have := List.snd_lt_of_mem_zipIdx member
      omega
    dsimp only
    rw [List.take_append_of_le_length bound]
  rw [renewals, List.zipIdx_append, List.countP_append, earlier]
  simp [List.countP_cons]

private theorem grantedSalts_concat (requests : List Request) (request : Request) (appId : Bytes) :
    grantedSalts (requests ++ [request]) appId =
      if request.answer.isOk = true ∧ request.appId = appId then
        grantedSalts requests appId ++ [request.salt]
      else grantedSalts requests appId := by
  rw [grantedSalts, List.filter_append, List.map_append]
  by_cases granted : request.answer.isOk = true ∧ request.appId = appId
  · rw [if_pos granted]
    simp [grantedSalts, granted.1, granted.2]
  · rw [if_neg granted]
    simp only [not_and] at granted
    simpa [grantedSalts] using granted

end Request

namespace Keyring

variable {settings : Settings} {ring : Keyring} {requests : List Request}

/-- What the requests so far have made of a ring: it holds the key last given to each app. -/
structure Reflects (settings : Settings) (ring : Keyring) (requests : List Request) : Prop where
  valid : ∀ appId entry, ring.keys[appId]? = some entry → isAppId appId = true
  sound : ring.Sound settings
  answers : ∀ request ∈ requests,
    request.answer = Request.answerAnew settings request.appId request.salt
  latest : ∀ appId, ring.keys[appId]?.map SaltedKey.salt =
    (Request.grantedSalts requests appId).getLast?
  derivations : ring.derivations = Request.renewals requests

/-- All that can come of asking for a key. -/
inductive Resolves (settings : Settings) (ring : Keyring) (appId salt : Bytes) :
    Except KeyDefect Bytes → Keyring → Prop
  | refused {defect : KeyDefect}
      (refused : Request.answerAnew settings appId salt = .error defect) :
      Resolves settings ring appId salt (.error defect) ring
  | known {key : Bytes} (found : ring.keys[appId]? = some ⟨salt, key⟩) :
      Resolves settings ring appId salt (.ok key) ring
  | derived (valid : isAppId appId = true) {key : Bytes}
      (derived : deriveKey settings appId salt = .ok key)
      (unknown : ring.keys[appId]?.map SaltedKey.salt ≠ some salt) :
      Resolves settings ring appId salt (.ok key) (ring.record appId salt key)

private theorem remembered?_eq_some {appId salt key : Bytes} :
    ring.remembered? appId salt = some key ↔ ring.keys[appId]? = some ⟨salt, key⟩ := by
  rw [remembered?]
  cases found : ring.keys[appId]? with
  | none => simp
  | some entry =>
    obtain ⟨salt', key'⟩ := entry
    by_cases same : salt' = salt <;> simp [same]

private theorem remembered?_eq_none {appId salt : Bytes} :
    ring.remembered? appId salt = none ↔ ring.keys[appId]?.map SaltedKey.salt ≠ some salt := by
  rw [remembered?]
  cases found : ring.keys[appId]? with
  | none => simp
  | some entry => by_cases same : entry.salt = salt <;> simp [same]

theorem resolves (settings : Settings) (ring : Keyring) (appId salt : Bytes) :
    Resolves settings ring appId salt (ring.resolve settings appId salt).1
      (ring.resolve settings appId salt).2 := by
  rw [resolve, checkAppId]
  by_cases valid : isAppId appId = true
  · rw [if_pos valid]
    dsimp only
    cases known : ring.remembered? appId salt with
    | some key => exact .known (remembered?_eq_some.mp known)
    | none =>
      dsimp only
      cases derived : deriveKey settings appId salt with
      | error defect =>
        apply Resolves.refused
        rw [Request.answerAnew, if_pos valid, derived]
      | ok key => exact .derived valid derived (remembered?_eq_none.mp known)
  · have anew : Request.answerAnew settings appId salt =
        if appId = [] then .error .noAppId else .error (.invalidAppId appId) := by
      rw [Request.answerAnew, if_neg valid]
    rw [if_neg valid]
    by_cases empty : appId = []
    · rw [if_pos empty] at anew ⊢
      exact .refused anew
    · rw [if_neg empty] at anew ⊢
      exact .refused anew

private theorem reflects_empty (settings : Settings) : ({} : Keyring).Reflects settings [] where
  valid := by simp
  sound := sound_empty settings
  answers := by simp
  latest := by simp [Request.grantedSalts]
  derivations := rfl

namespace Reflects

private theorem answers_concat (reflects : ring.Reflects settings requests) {request : Request}
    (answer : request.answer = Request.answerAnew settings request.appId request.salt) :
    ∀ other ∈ requests ++ [request],
      other.answer = Request.answerAnew settings other.appId other.salt := by
  intro other member
  rcases List.mem_append.mp member with before | last
  · exact reflects.answers other before
  · rwa [List.mem_singleton.mp last]

theorem concat_refused (reflects : ring.Reflects settings requests) {appId salt : Bytes}
    {defect : KeyDefect}
    (answer : Request.answerAnew settings appId salt = .error defect) :
    ring.Reflects settings (requests ++ [⟨appId, salt, .error defect⟩]) where
  valid := reflects.valid
  sound := reflects.sound
  answers := reflects.answers_concat answer.symm
  latest := by
    intro other
    rw [Request.grantedSalts_concat, if_neg (fun granted => Bool.noConfusion granted.1)]
    exact reflects.latest other
  derivations := by
    rw [Request.renewals_concat, if_neg (fun renews => Bool.noConfusion renews.1)]
    exact reflects.derivations

theorem concat_known (reflects : ring.Reflects settings requests) {appId salt key : Bytes}
    (found : ring.keys[appId]? = some ⟨salt, key⟩) :
    ring.Reflects settings (requests ++ [⟨appId, salt, .ok key⟩]) where
  valid := reflects.valid
  sound := reflects.sound
  answers := by
    apply reflects.answers_concat
    rw [Request.answerAnew, if_pos (reflects.valid _ _ found)]
    exact (reflects.sound _ _ found).symm
  latest := by
    intro other
    rw [Request.grantedSalts_concat]
    by_cases same : appId = other
    · subst same
      rw [if_pos ⟨rfl, rfl⟩, found]
      simp
    · rw [if_neg (fun granted => same granted.2)]
      exact reflects.latest other
  derivations := by
    have last := reflects.latest appId
    rw [found] at last
    rw [Request.renewals_concat, if_neg (fun renews => renews.2 last.symm)]
    exact reflects.derivations

theorem concat_derived (reflects : ring.Reflects settings requests) {appId salt key : Bytes}
    (valid : isAppId appId = true) (derived : deriveKey settings appId salt = .ok key)
    (unknown : ring.keys[appId]?.map SaltedKey.salt ≠ some salt) :
    (ring.record appId salt key).Reflects settings (requests ++ [⟨appId, salt, .ok key⟩]) where
  valid := by
    intro other entry found
    rw [Keyring.record, Std.ExtTreeMap.getElem?_insert] at found
    simp only [Std.LawfulEqCmp.compare_eq_iff_eq] at found
    by_cases same : appId = other
    · exact same ▸ valid
    · rw [if_neg same] at found
      exact reflects.valid other entry found
  sound := reflects.sound.record derived
  answers := by
    apply reflects.answers_concat
    rw [Request.answerAnew, if_pos valid, derived]
  latest := by
    intro other
    rw [Request.grantedSalts_concat, Keyring.record, Std.ExtTreeMap.getElem?_insert]
    simp only [Std.LawfulEqCmp.compare_eq_iff_eq]
    by_cases same : appId = other
    · rw [if_pos same, if_pos ⟨rfl, same⟩]
      simp
    · rw [if_neg same, if_neg (fun granted => same granted.2)]
      exact reflects.latest other
  derivations := by
    have renews : Request.Renews requests ⟨appId, salt, .ok key⟩ :=
      ⟨rfl, reflects.latest appId ▸ unknown⟩
    rw [Request.renewals_concat, if_pos renews, ← reflects.derivations]
    rfl

/-- A ring goes on to reflect the requests when one more is made. -/
theorem ask (reflects : ring.Reflects settings requests) (appId salt : Bytes) :
    (ring.resolve settings appId salt).2.Reflects settings
      (requests ++ [ring.ask settings appId salt]) := by
  have resolved := resolves settings ring appId salt
  rw [Keyring.ask]
  generalize (ring.resolve settings appId salt).1 = answer,
    (ring.resolve settings appId salt).2 = after at resolved ⊢
  cases resolved with
  | refused refused => exact reflects.concat_refused refused
  | known found => exact reflects.concat_known found
  | derived valid derived unknown => exact reflects.concat_derived valid derived unknown

private theorem answer_eq (reflects : ring.Reflects settings requests) (appId salt : Bytes) :
    (ring.resolve settings appId salt).1 = Request.answerAnew settings appId salt :=
  (reflects.ask appId salt).answers _ List.mem_concat_self

theorem unchanged (reflects : ring.Reflects settings requests) {appId salt : Bytes}
    {defect : KeyDefect} (refused : Request.answerAnew settings appId salt = .error defect) :
    (ring.resolve settings appId salt).2 = ring := by
  have resolved := resolves settings ring appId salt
  rw [reflects.answer_eq, refused] at resolved
  generalize (ring.resolve settings appId salt).2 = after at resolved ⊢
  cases resolved
  rfl

theorem use (reflects : ring.Reflects settings requests) (use : Use) :
    (use.after settings ring).Reflects settings
      (requests ++ (use.request? settings ring).toList) := by
  cases use with
  | key appId salt => exact reflects.ask appId salt
  | package appId bytes =>
    rw [Use.after, Use.request?, openPackage]
    cases read : readSalt settings bytes with
    | error defect =>
      rw [show (Except.error defect : Except Defect Bytes).toOption = none from rfl]
      simpa using reflects
    | ok salt =>
      have asked := reflects.ask appId salt
      dsimp only
      rcases resolved : ring.resolve settings appId salt with ⟨defect | key, after⟩ <;>
        rw [resolved] at asked <;> exact asked

theorem uses (reflects : ring.Reflects settings requests) (uses : List Use) :
    (ring.afterAll settings uses).Reflects settings (requests ++ ring.requests settings uses) := by
  induction uses generalizing ring requests with
  | nil => simpa [afterAll, Keyring.requests] using reflects
  | cons use uses ih =>
    rw [afterAll, List.foldl_cons, Keyring.requests, ← List.append_assoc]
    exact ih (reflects.use use)

end Reflects

private theorem reflects_afterAll (settings : Settings) (uses : List Use) :
    (({} : Keyring).afterAll settings uses).Reflects settings
      (({} : Keyring).requests settings uses) :=
  (reflects_empty settings).uses uses

end Keyring

/-- However keys and packages are asked for one after the other, the ring holds derived keys of valid
apps only. Every answer is the one of deriving the key anew, also on the way into a package; a
request that is not granted leaves the ring alone. Keys were derived once for each request that was
granted to an app which had been given none, or one for another salt last. -/
theorem keys_transparent (settings : Settings) (uses : List Use) :
    (∀ appId entry, (({} : Keyring).afterAll settings uses).keys[appId]? = some entry →
        isAppId appId = true ∧ deriveKey settings appId entry.salt = .ok entry.key) ∧
      (∀ request ∈ ({} : Keyring).requests settings uses,
        request.answer = Request.answerAnew settings request.appId request.salt) ∧
      (∀ appId bytes salt, readSalt settings bytes = .ok salt →
        (openPackage (({} : Keyring).afterAll settings uses) settings appId bytes).1 =
          match Request.answerAnew settings appId salt with
          | .error defect => .error (.key defect)
          | .ok key => (openWith settings key (maskKey settings appId) bytes).mapError .body) ∧
      (∀ appId salt defect, Request.answerAnew settings appId salt = .error defect →
        ((({} : Keyring).afterAll settings uses).resolve settings appId salt).2 =
          ({} : Keyring).afterAll settings uses) ∧
      (({} : Keyring).afterAll settings uses).derivations =
        Request.renewals (({} : Keyring).requests settings uses) := by
  have reflects := Keyring.reflects_afterAll settings uses
  refine ⟨?_, reflects.answers, ?_, ?_, reflects.derivations⟩
  · intro appId entry found
    exact ⟨reflects.valid appId entry found, reflects.sound appId entry found⟩
  · intro appId bytes salt read
    rw [openPackage, read, ← reflects.answer_eq]
    dsimp only
    rcases Keyring.resolve _ settings appId salt with ⟨defect | key, after⟩ <;> rfl
  · intro appId salt defect refused
    exact reflects.unchanged refused

end Unbundle.Sealed
