import Apackage.Lib.Index
import Apackage.Rtp2httpd.Playlist.ServiceTable

/-
  Service names are unique and the table is coherent, over every run of playlist parses,
  reloads and service creations.

  A name that is taken gets the next number. It can be taken again when the numbers have run
  out (999 is the largest that counts, so 1000 is given over and over) or when the name with
  the number is cut to 255 bytes; `NameFree` says that neither leads to a taken name.
-/

namespace Apackage.Rtp2httpd

open List Lib.Run Lib.Index

/-! ## The chosen name -/

theorem suffixNumber_lt {serviceName existing : Bytes} {k : ℕ}
    (h : suffixNumber serviceName existing = some k) : 0 < k ∧ k < 1000 := by
  unfold suffixNumber at h
  split at h
  · split at h
    · rename_i n _
      split at h
      · cases h
        omega
      · cases h
    · cases h
  · cases h

theorem suffixNumber_numberedName (serviceName : Bytes) {k : ℕ} (hpos : 0 < k) (hlt : k < 1000) :
    suffixNumber serviceName (numberedName serviceName k) = some k := by
  have hstart : serviceName ++ [slash] <+: numberedName serviceName k :=
    ⟨printDecimal k, by simp [numberedName]⟩
  have hdrop : (numberedName serviceName k).drop (serviceName.length + 1) = printDecimal k := by
    rw [numberedName, drop_length_add_append, drop_succ_cons, drop_zero]
  unfold suffixNumber
  rw [if_pos hstart, hdrop, strtol_printDecimal (by omega)]
  dsimp only
  rw [if_pos (by omega), Int.toNat_natCast]

def Numbered (names : List Bytes) (serviceName : Bytes) (k : ℕ) : Prop :=
  ∃ existing ∈ names, suffixNumber serviceName existing = some k

theorem maxSuffix_step (names : List Bytes) (serviceName existing : Bytes) :
    maxSuffix (names ++ [existing]) serviceName =
      max (maxSuffix names serviceName) ((suffixNumber serviceName existing).getD 0) := by
  simp [maxSuffix]

variable {serviceName : Bytes}

theorem le_maxSuffix {names : List Bytes} {k : ℕ} (h : Numbered names serviceName k) :
    k ≤ maxSuffix names serviceName := by
  induction names using List.reverseRecOn with
  | nil =>
    obtain ⟨existing, hmem, -⟩ := h
    cases hmem
  | append_singleton names last ih =>
    rw [maxSuffix_step]
    obtain ⟨existing, hmem, hk⟩ := h
    rcases mem_append.1 hmem with hmem | hmem
    · exact (ih ⟨existing, hmem, hk⟩).trans (Nat.le_max_left _ _)
    · rw [← mem_singleton.1 hmem, hk]
      exact Nat.le_max_right _ _

theorem maxSuffix_numbered {names : List Bytes} (h : 0 < maxSuffix names serviceName) :
    Numbered names serviceName (maxSuffix names serviceName) := by
  induction names using List.reverseRecOn with
  | nil => cases h
  | append_singleton names last ih =>
    rw [maxSuffix_step] at h ⊢
    rcases Nat.le_total ((suffixNumber serviceName last).getD 0) (maxSuffix names serviceName)
      with hle | hle
    · rw [Nat.max_eq_left hle] at h ⊢
      obtain ⟨existing, hmem, hk⟩ := ih h
      exact ⟨existing, mem_append_left _ hmem, hk⟩
    · rw [Nat.max_eq_right hle] at h ⊢
      cases hlast : suffixNumber serviceName last with
      | none =>
        rw [hlast] at h
        cases h
      | some k => exact ⟨last, by simp, hlast⟩

/-- The number for a name that is taken, itself or with numbers. -/
def NextNumber (names : List Bytes) (serviceName : Bytes) (n : ℕ) : Prop :=
  (n = 2 ∧ serviceName ∈ names ∧ ∀ k, ¬ Numbered names serviceName k) ∨
    ∃ k, n = k + 1 ∧ Numbered names serviceName k ∧ ∀ j, Numbered names serviceName j → j ≤ k

/-- The next number is not the one behind the last, or no service has it, and the name with it
    fits or its beginning is not the name of a service. -/
def NameFree (names : List Bytes) (serviceName : Bytes) : Prop :=
  ∀ n, NextNumber names serviceName n → if (numberedName serviceName n).length < maxServiceName then
      n = 1000 → numberedName serviceName 1000 ∉ names
    else (numberedName serviceName n).take (maxServiceName - 1) ∉ names

theorem nextNumber_iff {names : List Bytes} {n : ℕ} : NextNumber names serviceName n ↔
      (serviceName ∈ names ∨ maxSuffix names serviceName ≠ 0) ∧
        n = if 0 < maxSuffix names serviceName then maxSuffix names serviceName + 1 else 2 := by
  by_cases hpos : 0 < maxSuffix names serviceName
  · have hmax := maxSuffix_numbered hpos
    rw [if_pos hpos, and_iff_right (.inr (by omega))]
    constructor
    · rintro (⟨-, -, hnone⟩ | ⟨k, rfl, hk, hle⟩)
      · exact absurd hmax (hnone _)
      · have h1 := hle _ hmax
        have h2 := le_maxSuffix hk
        omega
    · rintro rfl
      exact .inr ⟨_, rfl, hmax, fun j hj => le_maxSuffix hj⟩
  · have hzero : maxSuffix names serviceName = 0 := by omega
    have hnone : ∀ k, ¬ Numbered names serviceName k := by
      rintro k ⟨existing, hmem, hk⟩
      have hle := le_maxSuffix ⟨existing, hmem, hk⟩
      have := suffixNumber_lt hk
      omega
    rw [if_neg hpos, or_iff_left (by simp [hzero])]
    constructor
    · rintro (⟨rfl, hmem, -⟩ | ⟨k, -, hk, -⟩)
      · exact ⟨hmem, rfl⟩
      · exact absurd hk (hnone k)
    · tauto

theorem nextNumber_free {names : List Bytes} {n : ℕ} (h : NextNumber names serviceName n)
    (hlt : n ≠ 1000) : numberedName serviceName n ∉ names := by
  intro hmem
  rcases h with ⟨rfl, -, hnone⟩ | ⟨k, rfl, hk, hle⟩
  · exact hnone 2 ⟨_, hmem, suffixNumber_numberedName _ (by decide) (by decide)⟩
  · obtain ⟨-, hbound⟩ : 0 < k ∧ k < 1000 := by
      obtain ⟨existing, -, hk⟩ := hk
      exact suffixNumber_lt hk
    have := hle (k + 1) ⟨_, hmem, suffixNumber_numberedName _ (by omega) (by omega)⟩
    omega

theorem findUnique_fresh_iff (names : List Bytes) (serviceName : Bytes) :
    findUniqueServiceName names serviceName ∉ names ↔ NameFree names serviceName := by
  unfold findUniqueServiceName NameFree
  split
  · rename_i hfree
    refine iff_of_true hfree.1 fun n hn => ?_
    rw [nextNumber_iff] at hn
    exact absurd hn.1 (by simp [hfree])
  · rename_i htaken
    have htaken' : serviceName ∈ names ∨ maxSuffix names serviceName ≠ 0 := by
      rwa [not_and_or, not_not] at htaken
    simp only [nextNumber_iff, htaken', true_and, forall_eq]
    have hnext := (nextNumber_iff (n := if 0 < maxSuffix names serviceName then
      maxSuffix names serviceName + 1 else 2)).2 ⟨htaken', rfl⟩
    generalize (if 0 < maxSuffix names serviceName then maxSuffix names serviceName + 1 else 2) = n
      at hnext
    split
    · rename_i hlen
      rw [take_of_length_le (by rw [maxServiceName] at *; omega)]
      constructor
      · rintro h rfl
        exact h
      · intro h
        by_cases hn : n = 1000
        · exact hn ▸ h hn
        · exact nextNumber_free hnext hn
    · rfl

/-! ## The table -/

/-- Services with names and addresses of their own. -/
structure Distinct (services : List TableService) : Prop where
  names : (services.map (·.name)).Nodup
  addresses : (services.map (·.address)).Nodup

/-- The list and the hashmap hold the same services. -/
structure Coherent (t : ServiceTable) : Prop extends Distinct t.services where
  lookup : Indexes TableService.name TableService.address t.serviceMap t.services

/-- Every address was allocated. -/
def Allocated (fresh : ℕ) (services : List TableService) : Prop := ∀ s ∈ services, s.address < fresh

variable (t : ServiceTable)

theorem cleared_coherent : Coherent t.cleared := ⟨⟨nodup_nil, nodup_nil⟩, indexes_nil⟩

section Create

variable {cfg : TableConfig} {source : ServiceSource} {t : ServiceTable} {call : ServiceCall}

variable (cfg source t call) in
theorem create_cases : createServiceFromUrl cfg source t call = (t, none) ∨
      ∃ service : TableService, service.address = t.fresh ∧
        service.name = findUniqueServiceName t.names call.name ∧
        createServiceFromUrl cfg source t call =
          (({ t with services := t.services ++ [service], fresh := t.fresh + 1 } :
            ServiceTable).hashmapAdd service, some service.name) := by
  unfold createServiceFromUrl
  dsimp only
  split
  · exact .inr ⟨_, rfl, rfl, rfl⟩
  · exact .inl rfl

theorem create_coherent (ht : Coherent t) (halloc : Allocated t.fresh t.services)
    (hfresh : findUniqueServiceName t.names call.name ∉ t.names) :
    Coherent (createServiceFromUrl cfg source t call).1 := by
  rcases create_cases cfg source t call with
    heq | ⟨service, haddr, hname, heq⟩
  · rw [heq]
    exact ht
  · rw [heq]
    have hnew : service.name ∉ t.services.map (·.name) := hname ▸ hfresh
    refine ⟨⟨?_, ?_⟩, ht.lookup.concat hnew⟩
    · show ((t.services ++ [service]).map (·.name)).Nodup
      rw [map_append]
      exact List.Nodup.append ht.names (nodup_singleton _) (by simpa using hnew)
    · show ((t.services ++ [service]).map (·.address)).Nodup
      rw [map_append]
      refine List.Nodup.append ht.addresses (nodup_singleton _) ?_
      rintro a ha hb
      obtain ⟨s, hs, rfl⟩ := List.mem_map.1 ha
      have hlt := halloc s hs
      rw [map_singleton, mem_singleton, haddr] at hb
      omega

theorem create_allocated (halloc : Allocated t.fresh t.services) :
    Allocated (createServiceFromUrl cfg source t call).1.fresh
      (createServiceFromUrl cfg source t call).1.services := by
  rcases create_cases cfg source t call with
    heq | ⟨service, haddr, -, heq⟩
  · rw [heq]
    exact halloc
  · rw [heq]
    intro s hs
    rcases mem_append.1 hs with hs | hs
    · exact Nat.lt_succ_of_lt (halloc s hs)
    · rw [mem_singleton.1 hs, haddr]
      exact Nat.lt_succ_self _

theorem create_fresh_le : t.fresh ≤ (createServiceFromUrl cfg source t call).1.fresh := by
  rcases create_cases cfg source t call with
    heq | ⟨service, -, -, heq⟩
  · rw [heq]
  · rw [heq]
    exact Nat.le_succ _

end Create

/-! ## Bulk changes -/

variable (rest : List TableService)

theorem freeExternalFrom_services : (freeExternalFrom t rest).services =
        t.services ++ rest.filter (·.source ≠ .external) ∧
      (freeExternalFrom t rest).fresh = t.fresh := by
  induction rest generalizing t with
  | nil => simp [freeExternalFrom]
  | cons current rest ih =>
    unfold freeExternalFrom
    split
    · rename_i hext
      rw [filter_cons_of_neg (by simp [hext])]
      exact ih _
    · simp [*]

theorem Distinct.sublist {services services' : List TableService} (h : Distinct services)
    (hs : services'.Sublist services) : Distinct services' :=
  ⟨h.names.sublist (hs.map _), h.addresses.sublist (hs.map _)⟩

theorem freeExternalFrom_lookup (hd : Distinct (t.services ++ rest))
    (h : Indexes TableService.name TableService.address t.serviceMap (t.services ++ rest)) :
    Indexes TableService.name TableService.address (freeExternalFrom t rest).serviceMap
      (freeExternalFrom t rest).services := by
  induction rest generalizing t with
  | nil => simpa [freeExternalFrom] using h
  | cons current rest ih =>
    unfold freeExternalFrom
    split
    · refine ih _ ?_ (h.erase hd.names)
      exact hd.sublist ((List.Sublist.refl _).append (sublist_cons_self _ _))
    · exact ih _ (by simpa using hd) (by simpa using h)

theorem serviceFreeExternal_coherent {t : ServiceTable} (h : Coherent t) :
    Coherent (serviceFreeExternal t) := by
  have hlookup := freeExternalFrom_lookup { t with services := [] } t.services h.toDistinct h.lookup
  refine ⟨?_, hlookup⟩
  rw [serviceFreeExternal, (freeExternalFrom_services _ _).1, nil_append]
  exact h.toDistinct.sublist filter_sublist

theorem hashmapAdd_lookup (done new : List TableService)
    (h : Indexes TableService.name TableService.address t.serviceMap done)
    (hnames : ((done ++ new).map (·.name)).Nodup) :
    (new.foldl ServiceTable.hashmapAdd t).services = t.services ∧
      (new.foldl ServiceTable.hashmapAdd t).fresh = t.fresh ∧
      Indexes TableService.name TableService.address
        (new.foldl ServiceTable.hashmapAdd t).serviceMap (done ++ new) := by
  induction new generalizing t done with
  | nil => simpa using h
  | cons s new ih =>
    have hnew : s.name ∉ done.map (·.name) := by
      grind
    rw [foldl_cons, append_cons]
    exact ih _ _ (h.concat hnew) (by simpa using hnames)

theorem serviceReplaceAll_coherent {new : List TableService} (h : Distinct new) :
    Coherent (serviceReplaceAll t new) ∧ (serviceReplaceAll t new).services = new ∧
      (serviceReplaceAll t new).fresh = t.fresh := by
  obtain ⟨hservices, hfresh, hlookup⟩ := hashmapAdd_lookup { t.cleared with services := new }
    [] new indexes_nil h.names
  have hs : (serviceReplaceAll t new).services = new := hservices
  refine ⟨⟨?_, ?_⟩, hs, hfresh⟩
  · rw [hs]
    exact h
  · rw [hs]
    exact hlookup

theorem serviceCloneList_names (fresh : ℕ) (services : List TableService) :
    (serviceCloneList fresh services).map (·.name) = services.map (·.name) := by
  induction services generalizing fresh with
  | nil => rfl
  | cons s services ih => simp [serviceCloneList, ih]

theorem serviceCloneList_addresses (fresh : ℕ) (services : List TableService) :
    (serviceCloneList fresh services).map (·.address) = List.range' fresh services.length := by
  induction services generalizing fresh with
  | nil => rfl
  | cons s services ih => simp [serviceCloneList, ih, range'_succ]

variable {services : List TableService}

theorem serviceCloneList_distinct {fresh : ℕ} (h : Distinct services) :
    Distinct (serviceCloneList fresh services) ∧
      Allocated (fresh + services.length) (serviceCloneList fresh services) := by
  refine ⟨⟨serviceCloneList_names fresh services ▸ h.names, ?_⟩, fun s hs => ?_⟩
  · rw [serviceCloneList_addresses]
    exact nodup_range'
  · have hmem : s.address ∈ (serviceCloneList fresh services).map (·.address) :=
      List.mem_map_of_mem hs
    rw [serviceCloneList_addresses, mem_range'_1] at hmem
    exact hmem.2

/-! ## Runs -/

/-- The calls of `create_service_from_url` in a step, with the table in front of each. -/
def callsOf (cfg : TableConfig) (s : Playlists) : PlaylistEvent → List (ServiceTable × ServiceCall)
  | .line line =>
    if s.entry.takesUrl line then
      match mainCall cfg.appPathRoute s.entry.extinf line with
      | none => []
      | some call =>
        match createServiceFromUrl cfg s.source s.table call with
        | (_, none) => [(s.table, call)]
        | (t, some unique) =>
          (s.table, call) ::
            (catchupCall cfg.appPathRoute s.entry.extinf (!s.entry.entryHasUrl) line
              unique).toList.map (t, ·)
    else []
  | .create call => [(s.table, call)]
  | _ => []

/-- Every name chosen in the step differs from the names in the table at that moment. -/
def ChosenFresh (cfg : TableConfig) (s : Playlists) (e : PlaylistEvent) : Prop :=
  ∀ c ∈ callsOf cfg s e, findUniqueServiceName c.1.names c.2.name ∉ c.1.names
  deriving Decidable

/-- The condition on a step, in the state before each call. -/
def CallsFree (cfg : TableConfig) (s : Playlists) (e : PlaylistEvent) : Prop :=
  ∀ c ∈ callsOf cfg s e, NameFree c.1.names c.2.name

variable (cfg : TableConfig)

theorem chosenFresh_iff (s : Playlists) (e : PlaylistEvent) :
    ChosenFresh cfg s e ↔ CallsFree cfg s e :=
  forall₂_congr fun c _ => findUnique_fresh_iff c.1.names c.2.name

/-- What holds between the steps. -/
structure TableInv (s : Playlists) : Prop where
  coherent : Coherent s.table
  allocated : Allocated s.table.fresh s.table.services
  saved : ∀ services, s.saved = some services → Distinct services ∧ Allocated s.table.fresh services

theorem Allocated.mono {fresh fresh' : ℕ} (h : Allocated fresh services) (hle : fresh ≤ fresh') :
    Allocated fresh' services :=
  fun s hs => Nat.lt_of_lt_of_le (h s hs) hle

variable {s : Playlists}

theorem TableInv.create {t : ServiceTable} (call : ServiceCall)
    (hinv : TableInv { s with table := t })
    (hfresh : findUniqueServiceName t.names call.name ∉ t.names) :
    TableInv { s with table := (createServiceFromUrl cfg s.source t call).1 } :=
  ⟨create_coherent hinv.coherent hinv.allocated hfresh, create_allocated hinv.allocated,
    fun services hs => ⟨(hinv.saved services hs).1, (hinv.saved services hs).2.mono create_fresh_le⟩⟩

theorem createForUrl_inv {cfg : TableConfig} {line : Bytes} (hinv : TableInv s)
    (htakes : s.entry.takesUrl line = true) (hfresh : ChosenFresh cfg s (.line line)) :
    TableInv { s with table := createForUrl cfg s line } := by
  unfold ChosenFresh callsOf at hfresh
  dsimp only at hfresh
  rw [if_pos htakes] at hfresh
  unfold createForUrl
  cases hmain : mainCall cfg.appPathRoute s.entry.extinf line with
  | none => exact hinv
  | some call =>
    rw [hmain] at hfresh
    dsimp only at hfresh ⊢
    have hcreate := TableInv.create cfg call hinv
    cases hresult : createServiceFromUrl cfg s.source s.table call with
    | mk t unique =>
      rw [hresult] at hfresh hcreate
      cases unique with
      | none => exact hcreate (hfresh (s.table, call) (by simp))
      | some unique =>
        dsimp only at hfresh ⊢
        have hinv' := hcreate (hfresh (s.table, call) (by simp))
        cases hcatchup : catchupCall cfg.appPathRoute s.entry.extinf (!s.entry.entryHasUrl) line
            unique with
        | none => exact hinv'
        | some call' =>
          rw [hcatchup] at hfresh
          exact hinv'.create cfg call' (hfresh (t, call') (by simp))

theorem playlistStep_inv {cfg : TableConfig} {e : PlaylistEvent} (hinv : TableInv s)
    (hfresh : ChosenFresh cfg s e) : TableInv (playlistStep cfg s e) := by
  cases e with
  | parse source => exact ⟨hinv.coherent, hinv.allocated, hinv.saved⟩
  | line line =>
    unfold playlistStep
    dsimp only
    split
    · rename_i htakes
      have h := createForUrl_inv hinv htakes hfresh
      exact ⟨h.coherent, h.allocated, h.saved⟩
    · exact ⟨hinv.coherent, hinv.allocated, hinv.saved⟩
  | create call => exact hinv.create cfg call (hfresh (s.table, call) (by simp [callsOf]))
  | freeExternal =>
    obtain ⟨hservices, hfresh'⟩ := freeExternalFrom_services { s.table with services := [] }
      s.table.services
    refine ⟨serviceFreeExternal_coherent hinv.coherent, ?_, ?_⟩
    · intro x hx
      have hx' : x ∈ s.table.services.filter (·.source ≠ .external) := by
        rw [← nil_append (List.filter _ _), ← hservices]
        exact hx
      exact hfresh' ▸ hinv.allocated x (mem_of_mem_filter hx')
    · exact hfresh' ▸ hinv.saved
  | reset => exact ⟨cleared_coherent _, fun x hx => (by cases hx), hinv.saved⟩
  | save =>
    refine ⟨⟨hinv.coherent.toDistinct, hinv.coherent.lookup⟩,
      hinv.allocated.mono (Nat.le_add_right _ _), fun services hs => ?_⟩
    cases hs
    exact serviceCloneList_distinct hinv.coherent.toDistinct
  | restore =>
    unfold playlistStep
    dsimp only
    split
    · exact hinv
    · rename_i saved hsaved
      obtain ⟨hdistinct, halloc⟩ := hinv.saved saved hsaved
      obtain ⟨hcoherent, hservices, hfresh'⟩ := serviceReplaceAll_coherent s.table hdistinct
      refine ⟨hcoherent, ?_, fun services hs => (by cases hs)⟩
      rw [hservices, hfresh']
      exact halloc

/-- A process starts without services. -/
def Playlists.init : Playlists := ⟨⟨[], fun _ => none, 0⟩, .init, .inline, none⟩

theorem init_inv : TableInv .init :=
  ⟨⟨⟨nodup_nil, nodup_nil⟩, indexes_nil⟩, fun x hx => (by cases hx),
    fun services hs => (by cases hs)⟩

def multicastEntry (name : Bytes) : Bytes :=
  ascii "#EXTINF:-1," ++ name ++ ascii "\nudp://239.0.0.1:5000\n"

def allUrls : TableConfig := ⟨[], fun _ => true⟩

end Apackage.Rtp2httpd
