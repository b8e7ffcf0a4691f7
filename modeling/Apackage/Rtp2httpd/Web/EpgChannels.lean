import Apackage.Lib.SharedLists
import Apackage.Rtp2httpd.Web.EpgGaps
import Apackage.Rtp2httpd.Web.JsString

/-
  Programmes under the names of their channel (`parseEPG` in `epg-parser.ts`).

  All names of a channel refer to one list of programmes, which a programme finds by the first of
  its channel's names that has a list. Where two channels share some names and not all, the result
  depends on which programme comes first.

  Both maps are plain JavaScript objects. A name that every object inherits is found in them before
  it is stored, and what is found has no `push`.

  Model. The document is as the XML parser hands it over. `parseXMLTVTime` depends on the time zone
  of the browser and is any function. None is the exception that leaves `parseEPG`.
-/

namespace Apackage.Rtp2httpd.Epg

open List Option Lib

inductive XmlTextNode
  | string (s : String)
  | node (text : Option String)

structure XmlChannel where
  id : Option String
  displayName : List XmlTextNode

structure XmlProgramme where
  channel : Option String
  start : Option String
  stop : Option String
  title : List XmlTextNode

structure XmlTv where
  channel : List XmlChannel
  programme : List XmlProgramme

def xmlTextContent : Option XmlTextNode → Option String
  | none => none
  | some (.string s) => truthy (some s)
  | some (.node text) => truthy text

/-- What `parseEPG` has beside the document. -/
structure ParseOptions where
  parseXMLTVTime : String → Option ℤ
  validChannelIds : Option (List String)

def blankChar (c : Char) : Bool := c.toNat < 0x10000 && jsSpace (UInt16.ofNat c.toNat)

def trimText (s : String) : String :=
  String.ofList ((s.toList.dropWhile blankChar).rdropWhile blankChar)

/-- The keys of a channel: its id and its display names, each once. -/
def channelKeys (id : String) (displayNames : List XmlTextNode) : List String :=
  displayNames.foldl
    (fun keys displayNameNode =>
      match truthy ((xmlTextContent (some displayNameNode)).map trimText) with
      | some displayName => if displayName ∈ keys then keys else keys ++ [displayName]
      | none => keys)
    [id]

/-! ## Objects -/

/-- The names that arrays inherit beside those of every object. -/
def arrayNames : List String :=
  ["length", "at", "concat", "copyWithin", "entries", "every", "fill", "filter", "find",
    "findIndex", "findLast", "findLastIndex", "flat", "flatMap", "forEach", "includes", "indexOf",
    "join", "keys", "lastIndexOf", "map", "pop", "push", "reduce", "reduceRight", "reverse",
    "shift", "slice", "some", "sort", "splice", "toReversed", "toSorted", "toSpliced", "unshift",
    "values", "with"]

/-- The entry of an array under a name that is its index. -/
def indexed {α : Type} (array : List α) (name : String) : Option α :=
  (array.zipIdx.find? fun entry => toString entry.2 = name).map Prod.fst

/-- `{}` with arrays of strings stored in it: storing under `__proto__` sets the prototype. -/
structure LookupMap where
  own : String → Option (List String)
  proto : Option (List String)

/-- What a lookup of a channel finds. -/
inductive LookedUp
  | names (keys : List String)
  | text (s : String)
  | other

def LookupMap.set (map : LookupMap) (id : String) (keys : List String) : LookupMap :=
  if id = "__proto__" then { map with proto := some keys }
  else { map with own := Function.update map.own id (some keys) }

/-- What is found and counts as true. -/
def LookupMap.get (map : LookupMap) (id : String) : Option LookedUp :=
  match map.own id, map.proto with
  | some keys, _ => some (.names keys)
  | none, none => if id ∈ objectNames then some .other else none
  | none, some keys =>
    if id = "__proto__" then some (.names keys)
    else if id ∈ objectNames ++ arrayNames then some .other
    else (truthy (indexed keys id)).map .text

/-- What `for … of` goes through. -/
def LookedUp.iterate : LookedUp → Option (List String)
  | .names keys => some keys
  | .text s => some (s.toList.map fun c => String.ofList [c])
  | .other => none

def extractChannelLookupKeys (channelElements : List XmlChannel) : LookupMap :=
  channelElements.foldl
    (fun map channel =>
      match truthy channel.id with
      | some id => map.set id (channelKeys id channel.displayName)
      | none => map)
    ⟨fun _ => none, none⟩

/-- `epgData` with its lists; `proto` is the list that is its prototype. -/
structure Guide where
  shared : SharedLists String EPGProgram
  proto : Option ℕ

namespace Guide

def empty : Guide := ⟨.empty, none⟩

/-- What is found and counts as true: a list, or what has no `push`. -/
def get (g : Guide) (key : String) : Option (Option ℕ) :=
  match g.shared.ref key, g.proto with
  | some i, _ => some (some i)
  | none, none => if key ∈ objectNames then some none else none
  | none, some i =>
    if key = "__proto__" then some (some i)
    else if key ∈ objectNames ++ arrayNames ∨ (indexed (g.shared.lists[i]?.getD []) key).isSome then
      some none
    else none

/-- All keys are set to list `i`. -/
def share (g : Guide) (keys : List String) (i : ℕ) : Guide where
  shared := g.shared.share (keys.filter (· ≠ "__proto__")) i
  proto := if "__proto__" ∈ keys then some i else g.proto

/-- `getOrCreateProgramBucket(lookupKeys).push(program)`. -/
def add (g : Guide) (lookupKeys : List String) (program : EPGProgram) : Option Guide :=
  match lookupKeys.findSome? g.get with
  | some (some i) =>
    let g := g.share lookupKeys i
    some { g with shared := g.shared.push i program }
  | some none => none
  | none =>
    let i := g.shared.lists.length
    let g := { g with shared.lists := g.shared.lists ++ [[]] }.share lookupKeys i
    some { g with shared := g.shared.push i program }

end Guide

/-! ## parseEPG -/

section

variable (o : ParseOptions) (channelLookupKeys : LookupMap)

def lookupKeys (channelId : String) : LookedUp :=
  (channelLookupKeys.get channelId).getD (.names [channelId])

/-- Whether the channel is not in the valid list. -/
def skipped (keys : LookedUp) : Option Bool :=
  match o.validChannelIds, keys with
  | none, _ => some false
  | some valid, .names names => some !names.any valid.contains
  | some _, _ => none

/-- A programme element that is accepted, with the keys of its channel. -/
def accepted (prog : XmlProgramme) : Option (Option (List String × EPGProgram)) :=
  match truthy prog.channel with
  | none => some none
  | some channelId =>
    (skipped o (lookupKeys channelLookupKeys channelId)).bind fun skip =>
      if skip then some none
      else
        match o.parseXMLTVTime (prog.start.getD ""), o.parseXMLTVTime (prog.stop.getD "") with
        | some start, some stop =>
          (lookupKeys channelLookupKeys channelId).iterate.map fun keys =>
            some (keys,
              ⟨channelId ++ "-" ++ toString start, xmlTextContent prog.title.head?, start, stop⟩)
        | _, _ => some none

def addProgramme (epgData : Guide) (prog : XmlProgramme) : Option Guide :=
  (accepted o channelLookupKeys prog).bind fun
    | some (keys, program) => epgData.add keys program
    | none => some epgData

end

/-- `sort((a, b) => a.start.getTime() - b.start.getTime())`, which is stable. -/
def sortByStart (programs : List EPGProgram) : List EPGProgram :=
  programs.mergeSort fun p q => p.start ≤ q.start

def parseEPG (o : ParseOptions) : Option XmlTv → Option EPGData
  | none => some fun _ => none
  | some tv =>
    let channelLookupKeys := extractChannelLookupKeys tv.channel
    (tv.programme.foldlM (addProgramme o channelLookupKeys)
      Guide.empty).map fun epgData key => (epgData.shared.lookup key).map sortByStart

/-! ## Stable sorting -/

variable (programs : List EPGProgram)

theorem sortByStart_sorted : SortedByStart (sortByStart programs) := by
  have h : (sortByStart programs).Pairwise fun p q => decide (p.start ≤ q.start) = true :=
    pairwise_mergeSort (by simp only [decide_eq_true_eq]; omega)
      (by simp only [Bool.or_eq_true, decide_eq_true_eq]; omega) programs
  simpa [SortedByStart] using h

theorem sortByStart_perm : (sortByStart programs).Perm programs := mergeSort_perm _ _

theorem sortByStart_filter (t : ℤ) : (sortByStart programs).filter (fun p => p.start = t) =
      programs.filter fun p => p.start = t := by
  have hties : (programs.filter fun p => p.start = t).Pairwise
      fun p q => decide (p.start ≤ q.start) = true := by
    refine pairwise_of_forall_mem_list fun p hp q hq => ?_
    rw [mem_filter, decide_eq_true_eq] at hp hq
    rw [decide_eq_true_eq]
    omega
  have hsub := sublist_mergeSort (by simp only [decide_eq_true_eq]; omega)
    (by simp only [Bool.or_eq_true, decide_eq_true_eq]; omega) hties filter_sublist
  have hfilter := hsub.filter fun p => decide (p.start = t)
  rw [List.filter_filter] at hfilter
  simp only [Bool.and_self] at hfilter
  exact (hfilter.eq_of_length ((sortByStart_perm programs).filter _).length_eq.symm).symm

/-- Lists with the same programmes, of which no two different ones start together, are sorted to
    the same list. -/
theorem sortByStart_congr {a b : List EPGProgram} (h : a.Perm b)
    (hties : ∀ p ∈ a, ∀ q ∈ a, p.start = q.start → p = q) : sortByStart a = sortByStart b := by
  have hperm : (sortByStart a).Perm (sortByStart b) :=
    ((sortByStart_perm a).trans h).trans (sortByStart_perm b).symm
  refine hperm.eq_of_pairwise ?_ (sortByStart_sorted a) (sortByStart_sorted b)
  intro p q hp hq hpq hqp
  exact hties p ((sortByStart_perm a).mem_iff.1 hp) q
    (h.mem_iff.2 ((sortByStart_perm b).mem_iff.1 hq)) (le_antisymm hpq hqp)

/-! ## The accepted programmes -/

section

variable (o : ParseOptions) (tv : XmlTv)

/-- What a programme element gives: the outer none is an exception. -/
def itemOf (prog : XmlProgramme) : Option (Option (List String × EPGProgram)) :=
  accepted o (extractChannelLookupKeys tv.channel) prog

/-- The accepted programmes in the order of their elements. -/
def acceptedItems : List (List String × EPGProgram) :=
  tv.programme.filterMap fun prog => (itemOf o tv prog).join

/-- The names of a channel: those that its element gives it, or its id. -/
def channelNames (channelId : String) : List String :=
  match (extractChannelLookupKeys tv.channel).get channelId with
  | some (.names names) => names
  | _ => [channelId]

/-- The document with its programme elements in another order. -/
def reordered (programme : List XmlProgramme) : XmlTv := { tv with programme }

/-- A guide is returned, and in every order of the programme elements the same one; every accepted
    programme is in it under all names of its own channel and no other name, and every list is
    sorted. -/
structure Organized : Prop where
  returns : (parseEPG o tv).isSome
  named : ∀ prog ∈ tv.programme, ∀ item, itemOf o tv prog = some (some item) →
    ∀ key, key ∈ item.1 ↔ key ∈ channelNames tv (prog.channel.getD "")
  found : ∀ guide, parseEPG o tv = some guide → ∀ item ∈ acceptedItems o tv, ∀ key,
    item.2 ∈ (guide key).getD [] ↔ key ∈ item.1
  sorted : ∀ guide, parseEPG o tv = some guide → ∀ key list, guide key = some list →
    SortedByStart list
  order : ∀ programme, programme.Perm tv.programme → parseEPG o (reordered tv programme) =
    parseEPG o tv

/-- Every programme element is looked up without an exception and by the names of its channel, and
    no accepted one by a name that every object inherits. -/
def Readable : Prop :=
  ∀ prog ∈ tv.programme, ∃ found, itemOf o tv prog = some found ∧ ∀ item, found = some item →
    (∀ key, key ∈ item.1 ↔ key ∈ channelNames tv (prog.channel.getD "")) ∧
      ∀ key ∈ item.1, key ∉ objectNames

/-- Channels of accepted programmes that share a name share all names, and programmes of such
    channels that start together are the same. -/
def Unambiguous : Prop :=
  ∀ p ∈ acceptedItems o tv, ∀ q ∈ acceptedItems o tv, ∀ x ∈ p.1, x ∈ q.1 →
    (∀ key, key ∈ p.1 ↔ key ∈ q.1) ∧ (p.2.start = q.2.start → p.2 = q.2)

variable {o tv}

theorem mem_items {item : List String × EPGProgram} : item ∈ acceptedItems o tv ↔
    ∃ prog ∈ tv.programme, itemOf o tv prog = some (some item) := by
  simp only [acceptedItems, mem_filterMap, Option.join_eq_some_iff]

variable {programme : List XmlProgramme}

theorem perm_items (hperm : programme.Perm tv.programme) :
    (acceptedItems o (reordered tv programme)).Perm (acceptedItems o tv) := hperm.filterMap _

theorem items_cons {prog : XmlProgramme} {item : List String × EPGProgram}
    (h : itemOf o tv prog = some (some item)) :
    acceptedItems o (reordered tv (prog :: programme)) =
      item :: acceptedItems o (reordered tv programme) :=
  filterMap_cons_some (congrArg Option.join h)

theorem Readable.reordered (h : Readable o tv) (hperm : programme.Perm tv.programme) :
    Readable o (reordered tv programme) := fun prog hprog => h prog (hperm.mem_iff.1 hprog)

/-! ## Names that are not inherited -/

theorem Guide.add_plain {keys : List String} (hkeys : ∀ key ∈ keys, key ∉ objectNames)
    (s : SharedLists String EPGProgram) (program : EPGProgram) :
    Guide.add ⟨s, none⟩ keys program = some ⟨s.add keys program, none⟩ := by
  have hget : ∀ key ∈ keys, Guide.get ⟨s, none⟩ key = (s.ref key).map some := by
    intro key hkey
    rw [Guide.get]
    dsimp only
    cases s.ref key with
    | none => exact if_neg (hkeys key hkey)
    | some i => rfl
  have hproto : "__proto__" ∉ keys := fun hmem => hkeys _ hmem (by decide)
  have hfilter : keys.filter (· ≠ "__proto__") = keys := by
    rw [filter_eq_self]
    exact fun key hkey => decide_eq_true fun heq => hproto (heq ▸ hkey)
  have hshare : ∀ (t : SharedLists String EPGProgram) (i : ℕ),
      Guide.share ⟨t, none⟩ keys i = ⟨t.share keys i, none⟩ := by
    intro t i
    rw [Guide.share, hfilter, if_neg hproto]
  have hfind : keys.findSome? (Guide.get ⟨s, none⟩) = (keys.findSome? s.ref).map some := by
    rw [map_findSome?, ← head?_filterMap, ← head?_filterMap, filterMap_congr hget]
    rfl
  rw [Guide.add, hfind, SharedLists.add, SharedLists.getOrCreate]
  cases keys.findSome? s.ref with
  | none =>
    dsimp only [Option.map_none]
    rw [hshare]
  | some i =>
    dsimp only [Option.map_some]
    rw [hshare]

/-- The lists of the items under a key, sorted. -/
def listed (items : List (List String × EPGProgram)) (key : String) : Option (List EPGProgram) :=
  ((SharedLists.empty.addAll items).lookup key).map sortByStart

theorem parseEPG_eq (h : Readable o tv) :
    parseEPG o tv = some (listed (acceptedItems o tv)) := by
  have hfold : ∀ programme, programme ⊆ tv.programme → ∀ s : SharedLists String EPGProgram,
      programme.foldlM (addProgramme o (extractChannelLookupKeys tv.channel)) ⟨s, none⟩ =
        some ⟨s.addAll (acceptedItems o (reordered tv programme)), none⟩ := by
    intro programme hsub
    induction programme with
    | nil => exact fun s => rfl
    | cons prog programme ih =>
      intro s
      obtain ⟨found, hfound, hitem⟩ := h prog (hsub mem_cons_self)
      have hrest := ih fun p hp => hsub (mem_cons_of_mem _ hp)
      rw [foldlM_cons, addProgramme, show accepted o _ prog = some found from hfound, bind_some]
      cases found with
      | none =>
        have hitems : acceptedItems o (reordered tv (prog :: programme)) =
            acceptedItems o (reordered tv programme) :=
          filterMap_cons_none (congrArg Option.join hfound)
        rw [hitems]
        exact hrest s
      | some item =>
        rw [items_cons hfound]
        dsimp only
        rw [Guide.add_plain (hitem item rfl).2]
        exact hrest _
  rw [parseEPG, Guide.empty, hfold tv.programme (List.Subset.refl _)]
  rfl

/-- A guide is returned only if no programme element is looked up with an exception. -/
theorem accepted_of_returns {map : LookupMap} {programme : List XmlProgramme} {g g' : Guide}
    (h : programme.foldlM (addProgramme o map) g = some g') :
    ∀ prog ∈ programme, (accepted o map prog).isSome := by
  induction programme generalizing g with
  | nil => exact fun _ hprog => absurd hprog not_mem_nil
  | cons prog programme ih =>
    rw [foldlM_cons] at h
    obtain ⟨g₁, hfirst, hrest⟩ := bind_eq_some_iff.1 h
    obtain ⟨found, hfound, -⟩ := bind_eq_some_iff.1 hfirst
    intro p hp
    rcases List.mem_cons.1 hp with rfl | hp
    · exact Option.isSome_of_mem hfound
    · exact ih hrest p hp

/-- An inherited name is found in the empty guide. -/
theorem not_inherited_of_first {keys : List String} {program : EPGProgram} {g : Guide}
    (h : Guide.empty.add keys program = some g) : ∀ key ∈ keys, key ∉ objectNames := by
  intro key hkey hname
  have hget : ∀ key, Guide.empty.get key = if key ∈ objectNames then some none else none :=
    fun _ => rfl
  rw [Guide.add] at h
  cases hfind : keys.findSome? Guide.empty.get with
  | none =>
    have hnone := findSome?_eq_none_iff.1 hfind key hkey
    rw [hget, if_pos hname] at hnone
    cases hnone
  | some v =>
    obtain ⟨key', -, hv⟩ := exists_of_findSome?_eq_some hfind
    rw [hget] at hv
    split at hv
    · obtain rfl := some.inj hv
      rw [hfind] at h
      cases h
    · cases hv

theorem Organized.readable (h : Organized o tv) : Readable o tv := by
  intro prog hprog
  obtain ⟨before, after, hsplit⟩ := List.append_of_mem hprog
  have hperm : (prog :: (before ++ after)).Perm tv.programme := hsplit ▸ perm_middle.symm
  obtain ⟨guide, hguide⟩ := Option.isSome_iff_exists.1 h.returns
  obtain ⟨g, hg, -⟩ := Option.map_eq_some_iff.1 ((h.order _ hperm).trans hguide)
  obtain ⟨found, hfound⟩ := Option.isSome_iff_exists.1 (accepted_of_returns hg prog mem_cons_self)
  refine ⟨found, hfound, fun item hitem => ?_⟩
  obtain rfl := hitem
  refine ⟨h.named prog hprog item hfound, ?_⟩
  rw [reordered, foldlM_cons] at hg
  obtain ⟨g₁, hfirst, -⟩ := bind_eq_some_iff.1 hg
  obtain ⟨found, hsame, hadd⟩ := bind_eq_some_iff.1 hfirst
  obtain rfl := some.inj (hfound.symm.trans hsame)
  exact not_inherited_of_first hadd

/-! ## Channels that share names -/

variable {program : EPGProgram} {map : LookupMap} {prog : XmlProgramme}

theorem accepted_channel {keys : List String}
    (h : accepted o map prog = some (some (keys, program))) :
    ∃ channelId, (lookupKeys map channelId).iterate = some keys ∧
      program.id = channelId ++ "-" ++ toString program.start := by
  rw [accepted] at h
  cases hchannel : truthy prog.channel with
  | none =>
    rw [hchannel] at h
    cases h
  | some channelId =>
    rw [hchannel] at h
    obtain ⟨skip, -, h⟩ := bind_eq_some_iff.1 h
    split at h
    · cases h
    · split at h
      · obtain ⟨keys', hkeys, heq⟩ := Option.map_eq_some_iff.1 h
        obtain ⟨rfl, rfl⟩ := Prod.mk.inj (some.inj heq)
        exact ⟨channelId, hkeys, rfl⟩
      · cases h

theorem keys_of_value {prog prog' : XmlProgramme} {keys keys' : List String}
    (h : accepted o map prog = some (some (keys, program)))
    (h' : accepted o map prog' = some (some (keys', program))) :
    keys = keys' := by
  obtain ⟨channelId, hkeys, hid⟩ := accepted_channel h
  obtain ⟨channelId', hkeys', hid'⟩ := accepted_channel h'
  have htext := congrArg String.toList (hid.symm.trans hid')
  simp only [String.toList_append, append_assoc] at htext
  rw [String.toList_inj.1 (append_cancel_right htext)] at hkeys
  exact some.inj (hkeys.symm.trans hkeys')

theorem keys_of_item {keys keys' : List String} (h : (keys, program) ∈ acceptedItems o tv)
    (h' : (keys', program) ∈ acceptedItems o tv) : keys = keys' := by
  obtain ⟨prog, -, hprog⟩ := mem_items.1 h
  obtain ⟨prog', -, hprog'⟩ := mem_items.1 h'
  exact keys_of_value hprog hprog'

theorem listed_own {items : List (List String × EPGProgram)} (h : SharedLists.Separated items)
    (key : String) :
    listed items key = if SharedLists.own items key = [] then none
      else some (sortByStart (SharedLists.own items key)) := by
  rw [listed, SharedLists.lookup_addAll h]
  split_ifs <;> rfl

theorem organized_of_unambiguous (hread : Readable o tv) (h : Unambiguous o tv) :
    Organized o tv := by
  have hparse := parseEPG_eq hread
  have hsep : SharedLists.Separated (acceptedItems o tv) :=
    fun p hp q hq x hxp hxq => (h p hp q hq x hxp hxq).1
  constructor
  · rw [hparse]
    rfl
  · intro prog hprog item hitem
    obtain ⟨found, hfound, hkeys⟩ := hread prog hprog
    exact (hkeys item (some.inj (hfound.symm.trans hitem))).1
  · intro guide hguide item hitem key
    obtain rfl := some.inj (hparse.symm.trans hguide)
    rw [listed_own hsep]
    have hmem : item.2 ∈ SharedLists.own (acceptedItems o tv) key ↔ key ∈ item.1 := by
      rw [SharedLists.mem_own]
      constructor
      · rintro ⟨keys, hkeys, hkey⟩
        rwa [← keys_of_item hkeys (show (item.1, item.2) ∈ _ from hitem)]
      · exact fun hkey => ⟨item.1, hitem, hkey⟩
    rw [← hmem]
    split_ifs with hown
    · rw [hown]
      rfl
    · exact (sortByStart_perm _).mem_iff
  · intro guide hguide key list hlist
    obtain rfl := some.inj (hparse.symm.trans hguide)
    obtain ⟨l, -, rfl⟩ := Option.map_eq_some_iff.1 hlist
    exact sortByStart_sorted l
  · intro programme hperm
    have hitems := perm_items (o := o) hperm
    have hsep' : SharedLists.Separated (acceptedItems o (reordered tv programme)) :=
      fun p hp q hq => hsep p (hitems.mem_iff.1 hp) q (hitems.mem_iff.1 hq)
    rw [parseEPG_eq (hread.reordered hperm), hparse]
    refine congrArg some (funext fun key => ?_)
    have hown : (SharedLists.own (acceptedItems o (reordered tv programme)) key).Perm
        (SharedLists.own (acceptedItems o tv) key) := (hitems.filter _).map _
    have hsorted := sortByStart_congr hown fun p hp q hq hpq => by
      obtain ⟨keys, hkeys, hkey⟩ := SharedLists.mem_own.1 hp
      obtain ⟨keys', hkeys', hkey'⟩ := SharedLists.mem_own.1 hq
      exact (h _ (hitems.mem_iff.1 hkeys) _ (hitems.mem_iff.1 hkeys') key hkey hkey').2 hpq
    rw [listed_own hsep', listed_own hsep, hsorted]
    by_cases hnil : SharedLists.own (acceptedItems o tv) key = []
    · rw [if_pos hnil, if_pos (hnil ▸ hown).eq_nil]
    · rw [if_neg hnil, if_neg fun h => hnil (h ▸ hown).nil_eq.symm]

section

variable (h : Organized o tv)

include h

theorem Organized.listed_eq (hperm : programme.Perm tv.programme) :
    listed (acceptedItems o (reordered tv programme)) = listed (acceptedItems o tv) := by
  have horder := h.order programme hperm
  rw [parseEPG_eq (h.readable.reordered hperm), parseEPG_eq h.readable] at horder
  exact some.inj horder

/-- Accepted programmes are listed under their own keys, in every order. -/
theorem Organized.mem_listed (hperm : programme.Perm tv.programme)
    {item : List String × EPGProgram} (hitem : item ∈ acceptedItems o tv) (key : String) :
    item.2 ∈ (listed (acceptedItems o (reordered tv programme)) key).getD [] ↔ key ∈ item.1 := by
  rw [h.listed_eq hperm]
  exact h.found _ (parseEPG_eq h.readable) item hitem key

theorem Organized.key_of_shared {p q : List String × EPGProgram} (hp : p ∈ acceptedItems o tv)
    (hq : q ∈ acceptedItems o tv) {x : String} (hxp : x ∈ p.1) (hxq : x ∈ q.1) {key : String}
    (hkey : key ∈ p.1) : key ∈ q.1 := by
  -- the elements of the two programmes come first
  let chosen : XmlProgramme → Bool := fun prog =>
    (itemOf o tv prog).join.any fun item => item.2 = p.2 ∨ item.2 = q.2
  let first := acceptedItems o (reordered tv (tv.programme.filter chosen))
  let rest := acceptedItems o (reordered tv (tv.programme.filter fun prog => !chosen prog))
  have hperm : (tv.programme.filter chosen ++ tv.programme.filter fun prog => !chosen prog).Perm
      tv.programme := filter_append_perm chosen tv.programme
  have hchosen : ∀ {prog item}, itemOf o tv prog = some (some item) →
      (chosen prog = true ↔ item.2 = p.2 ∨ item.2 = q.2) := by
    intro prog item hitem
    simp only [chosen, hitem, join_some, any_some, decide_eq_true_eq]
  have hfirst : ∀ item ∈ first, x ∈ item.1 := by
    intro item hitem
    obtain ⟨prog, hprog, hacc⟩ := mem_items.1 hitem
    obtain ⟨hprog, hkept⟩ := mem_filter.1 hprog
    have hmem : item ∈ acceptedItems o tv := mem_items.2 ⟨prog, hprog, hacc⟩
    rcases (hchosen hacc).1 hkept with heq | heq
    · rwa [keys_of_item (show (item.1, p.2) ∈ _ from heq ▸ hmem) hp]
    · rwa [keys_of_item (show (item.1, q.2) ∈ _ from heq ▸ hmem) hq]
  have hfront : ∀ item ∈ acceptedItems o tv, item.2 = p.2 ∨ item.2 = q.2 →
      item.2 ∈ first.map Prod.snd := by
    intro item hitem hvalue
    obtain ⟨prog, hprog, hacc⟩ := mem_items.1 hitem
    exact List.mem_map.2 ⟨item, mem_items.2
      ⟨prog, mem_filter.2 ⟨hprog, (hchosen hacc).2 hvalue⟩, hacc⟩, rfl⟩
  have hrest : ∀ item ∈ rest, item.2 ≠ p.2 ∧ item.2 ≠ q.2 := by
    intro item hitem
    obtain ⟨prog, hprog, hacc⟩ := mem_items.1 hitem
    have hnot := (mem_filter.1 hprog).2
    rw [Bool.not_eq_true', ← Bool.not_eq_true, hchosen hacc, not_or] at hnot
    exact hnot
  have hlist := (h.mem_listed hperm hp key).2 hkey
  refine (h.mem_listed hperm hq key).1 ?_
  have hsplit : acceptedItems o (reordered tv (tv.programme.filter chosen ++
      tv.programme.filter fun prog => !chosen prog)) = first ++ rest := filterMap_append
  rw [hsplit, listed] at hlist ⊢
  cases hlookup : (SharedLists.empty.addAll (first ++ rest)).lookup key with
  | none =>
    rw [hlookup] at hlist
    cases hlist
  | some l =>
    rw [hlookup] at hlist
    have htogether := SharedLists.lookup_together hfirst (hfront p hp (.inl rfl))
      (hfront q hq (.inr rfl)) hrest hlookup
    exact (sortByStart_perm l).mem_iff.2 (htogether.1 ((sortByStart_perm l).mem_iff.1 hlist))

end

theorem head_of_first {keys : List String}
    (hsep : SharedLists.Separated (acceptedItems o (reordered tv (prog :: programme))))
    (hprog : itemOf o tv prog = some (some (keys, program))) {x : String} (hx : x ∈ keys) :
    (((listed (acceptedItems o (reordered tv (prog :: programme))) x).getD []).filter
      fun p => p.start = program.start).head? = some program := by
  have hown : SharedLists.own (acceptedItems o (reordered tv (prog :: programme))) x =
      program :: SharedLists.own (acceptedItems o (reordered tv programme)) x := by
    rw [items_cons hprog, SharedLists.own, filter_cons_of_pos (by simpa using hx)]
    rfl
  rw [listed_own hsep, if_neg (by rw [hown]; exact cons_ne_nil _ _), getD_some,
    sortByStart_filter, hown, filter_cons_of_pos (by simp)]
  rfl

theorem unambiguous_of_organized (h : Organized o tv) : Unambiguous o tv := by
  intro p hp q hq x hxp hxq
  have hsep : SharedLists.Separated (acceptedItems o tv) := fun p hp q hq x hxp hxq key =>
    ⟨h.key_of_shared hp hq hxp hxq, h.key_of_shared hq hp hxq hxp⟩
  refine ⟨hsep p hp q hq x hxp hxq, fun hstart => ?_⟩
  have hfront : ∀ item ∈ acceptedItems o tv, x ∈ item.1 →
      (((listed (acceptedItems o tv) x).getD []).filter
        fun r => r.start = item.2.start).head? = some item.2 := by
    intro item hitem hx
    obtain ⟨prog, hprog, hacc⟩ := mem_items.1 hitem
    obtain ⟨before, after, hsplit⟩ := List.append_of_mem hprog
    have hperm : (prog :: (before ++ after)).Perm tv.programme := hsplit ▸ perm_middle.symm
    have hitems := perm_items (o := o) hperm
    rw [← h.listed_eq hperm]
    exact head_of_first (fun p hp q hq => hsep p (hitems.mem_iff.1 hp) q (hitems.mem_iff.1 hq))
      hacc hx
  have hfirst := hfront p hp hxp
  rw [hstart] at hfirst
  exact some.inj (hfirst.symm.trans (hfront q hq hxq))

end

/-- The guide is organized by channels exactly when every programme element can be read and the
    names of the channels are not ambiguous. -/
theorem epg_organized_iff (o : ParseOptions) (tv : XmlTv) : Organized o tv ↔
      Readable o tv ∧ Unambiguous o tv :=
  ⟨fun h => ⟨h.readable, unambiguous_of_organized h⟩, fun h => organized_of_unambiguous h.1 h.2⟩

/-- What `parseXMLTVTime` makes of two times. -/
def sampleTime (timeStr : String) : Option ℤ :=
  if timeStr = "20260101000000 +0000" then some 1767225600000
  else if timeStr = "20260101010000 +0000" then some 1767229200000
  else none

/-- Channel `a` is also called `News`, `b` is called `Sport`, and `c` has both names. -/
def sharedNames : XmlTv where
  channel := [⟨some "a", [.string "News"]⟩, ⟨some "b", [.string "Sport"]⟩,
    ⟨some "c", [.string "News", .string "Sport"]⟩]
  programme := ["a", "b", "c"].map fun id =>
    ⟨some id, some "20260101000000 +0000", some "20260101010000 +0000", []⟩

/-- The programme of `b` is not found under its name `Sport`: the programme of `c`, put into the
    list of `News`, has taken that name along. -/
theorem name_taken_along : ¬ Organized ⟨sampleTime, none⟩ sharedNames := by
  intro h
  have hitem : (["b", "Sport"], ⟨"b-1767225600000", none, 1767225600000, 1767229200000⟩) ∈
      acceptedItems ⟨sampleTime, none⟩ sharedNames := by decide
  have hfound := (h.found _ (parseEPG_eq h.readable) _ hitem "Sport").2 (by decide)
  have hlookup : (SharedLists.empty.addAll
      (acceptedItems ⟨sampleTime, none⟩ sharedNames)).lookup "Sport" =
      some [⟨"a-1767225600000", none, 1767225600000, 1767229200000⟩,
        ⟨"c-1767225600000", none, 1767225600000, 1767229200000⟩] := by decide
  rw [listed, hlookup, map_some, getD_some, (sortByStart_perm _).mem_iff] at hfound
  revert hfound
  decide

/-- A channel that is called `toString`. -/
def inheritedName : XmlTv where
  channel := [⟨some "a", [.string "toString"]⟩]
  programme := [⟨some "a", some "20260101000000 +0000", some "20260101010000 +0000", []⟩]

example : parseEPG ⟨sampleTime, none⟩ inheritedName = none := by
  rw [parseEPG, Option.map_eq_none_iff]
  decide

end Apackage.Rtp2httpd.Epg
