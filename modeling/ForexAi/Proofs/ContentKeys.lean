/-
Which records the content keys tell apart.

A key is a digest of texts joined by bars, and the texts may hold bars.  So two different
records share a key exactly where their texts, cut at the bars, give the same pieces with the
bars in different texts (`Confusable`).  The stamp is printed in the host's zone, so one record
has two keys on hosts whose offsets differ at its instant.
-/
import ForexAi.Data.News

namespace ForexAi

/-- Two rows of texts that are the same once joined by bars, and are not the same. -/
def Confusable (parts parts' : List String) : Prop :=
  Joined.Confusable '|' (parts.map String.toList) (parts'.map String.toList)

instance (parts parts' : List String) : Decidable (Confusable parts parts') :=
  inferInstanceAs (Decidable (Joined.Confusable _ _ _))

/-- Texts without bars are told apart. -/
theorem not_confusable {parts parts' : List String} (h : ∀ text ∈ parts, '|' ∉ text.toList)
    (h' : ∀ text ∈ parts', '|' ∉ text.toList) : ¬ Confusable parts parts' := by
  refine Joined.not_confusable ?_ ?_
  · intro field hfield
    obtain ⟨text, htext, rfl⟩ := List.mem_map.mp hfield
    exact h text htext
  · intro field hfield
    obtain ⟨text, htext, rfl⟩ := List.mem_map.mp hfield
    exact h' text htext

/-- Rows that differ in one text at most, with the same pieces, do not differ. -/
theorem text_between (front back : List String) {a b : String}
    (h : Joined.pieces '|' ((front ++ a :: back).map String.toList)
      = Joined.pieces '|' ((front ++ b :: back).map String.toList)) : a = b := by
  rw [List.map_append, List.map_append, List.map_cons, List.map_cons] at h
  exact String.toList_injective (Joined.pieces_between.mp h)

section Keys

variable [PyText]

/-- Digests are equal where the joined texts are. -/
theorem hashCanonical_eq_iff (hinj : Function.Injective PyText.sha256)
    (parts parts' : List String) :
    hashCanonical parts = hashCanonical parts' ↔
      ['|'].intercalate (parts.map String.toList) =
        ['|'].intercalate (parts'.map String.toList) := by
  unfold hashCanonical
  rw [hinj.eq_iff, ← String.toList_inj, String.toList_intercalate, String.toList_intercalate]
  rfl

/-- **When a digest of joined texts says what it is for.** -/
theorem hashCanonical_iff (hinj : Function.Injective PyText.sha256) {parts parts' : List String}
    (h : parts ≠ []) (h' : parts' ≠ []) {Same Agree : Prop} (hparts : parts = parts' ↔ Same ∧ Agree)
    (hprint : Same → Joined.pieces '|' (parts.map String.toList)
      = Joined.pieces '|' (parts'.map String.toList) → Agree) :
    ((hashCanonical parts = hashCanonical parts' ↔ Same) ↔
      (Same → Agree) ∧ ¬ Confusable parts parts') := by
  have hrow : parts.map String.toList = parts'.map String.toList ↔ Same ∧ Agree := by
    rw [← hparts]
    exact (List.map_injective_iff.mpr fun _ _ => String.toList_injective).eq_iff
  rw [hashCanonical_eq_iff hinj]
  exact Joined.tells_apart_iff (by simpa using h) (by simpa using h') hrow hprint

variable {z z' : HostZone}

theorem newsParts_eq_iff {a b : NormalizedNewsItem} (ha : Representable (z.wall a.publishedUtc))
    (hb : Representable (z'.wall b.publishedUtc)) :
    z.newsParts a = z'.newsParts b ↔
      a.SameNews b ∧ z.gmtoff a.publishedUtc = z'.gmtoff a.publishedUtc := by
  unfold HostZone.newsParts
  simp only [List.cons.injEq, and_true, true_and, HostZone.isoformat_inj ha hb]
  refine ⟨fun ⟨hp, he, hu, hh, ht, ho⟩ => ⟨⟨hp, he, hu, hh, ht⟩, by rw [ho, ht]⟩, ?_⟩
  intro ⟨hsame, hoffset⟩
  refine ⟨hsame.provider, hsame.externalId, hsame.url, hsame.headline, hsame.publishedUtc, ?_⟩
  rw [hoffset, hsame.publishedUtc]

/-- The keys of news. -/
theorem newsItemHash_iff (hinj : Function.Injective PyText.sha256) {a b : NormalizedNewsItem}
    (ha : Representable (z.wall a.publishedUtc)) (hb : Representable (z'.wall b.publishedUtc)) :
    (z.newsItemHash a = z'.newsItemHash b ↔ a.SameNews b) ↔
      (a.SameNews b → z.gmtoff a.publishedUtc = z'.gmtoff a.publishedUtc) ∧
        ¬ Confusable (z.newsParts a) (z'.newsParts b) := by
  rw [HostZone.newsItemHash_eq, HostZone.newsItemHash_eq]
  refine hashCanonical_iff hinj (by simp [HostZone.newsParts]) (by simp [HostZone.newsParts])
    (newsParts_eq_iff ha hb) ?_
  intro hsame hpieces
  unfold HostZone.newsParts at hpieces
  rw [hsame.provider, hsame.externalId, hsame.url, hsame.headline] at hpieces
  have hstamp : z.isoformat a.publishedUtc = z'.isoformat b.publishedUtc :=
    text_between ["news", PyText.lower b.provider, b.externalId.getD "",
      PyText.lower (PyText.strip (b.url.getD "")), PyText.lower (PyText.strip b.headline)] []
      hpieces
  rw [((HostZone.isoformat_inj ha hb).mp hstamp).2, hsame.publishedUtc]

theorem eventParts_eq_iff {a b : NormalizedEconomicEvent}
    (ha : Representable (z.wall a.timestampUtc)) (hb : Representable (z'.wall b.timestampUtc)) :
    z.eventParts a = z'.eventParts b ↔ a.SameIdentity b ∧
      (a.extId = none → z.gmtoff a.timestampUtc = z'.gmtoff a.timestampUtc) := by
  unfold HostZone.eventParts NormalizedEconomicEvent.SameIdentity
  cases hext : a.extId with
  | some id =>
      cases hext' : b.extId with
      | some id' => simp
      | none => simp
  | none =>
      cases hext' : b.extId with
      | some id' => simp
      | none =>
          simp only [List.cons.injEq, and_true, true_and, true_implies,
            HostZone.isoformat_inj ha hb]
          refine ⟨fun ⟨hp, ht, ⟨hs, ho⟩, hc⟩ => ⟨⟨hp, ht, hs, hc⟩, by rw [ho, hs]⟩, ?_⟩
          intro ⟨⟨hp, ht, hs, hc⟩, hoffset⟩
          exact ⟨hp, ht, ⟨hs, by rw [hoffset, hs]⟩, hc⟩

/-- The keys of events. -/
theorem calendarDedupKey_iff (hinj : Function.Injective PyText.sha256)
    {a b : NormalizedEconomicEvent} (ha : Representable (z.wall a.timestampUtc))
    (hb : Representable (z'.wall b.timestampUtc)) :
    (z.calendarDedupKey a = z'.calendarDedupKey b ↔ a.SameIdentity b) ↔
      (a.SameIdentity b → a.extId = none →
          z.gmtoff a.timestampUtc = z'.gmtoff a.timestampUtc) ∧
        ¬ Confusable (z.eventParts a) (z'.eventParts b) := by
  have hparts (host : HostZone) (e : NormalizedEconomicEvent) : host.eventParts e ≠ [] := by
    unfold HostZone.eventParts
    split <;> simp
  rw [HostZone.calendarDedupKey_eq, HostZone.calendarDedupKey_eq]
  refine hashCanonical_iff hinj (hparts z a) (hparts z' b) (eventParts_eq_iff ha hb) ?_
  intro ⟨hprovider, hid, hfields⟩ hpieces hnone
  obtain ⟨htitle, htime, hcurrency⟩ := hfields hnone
  unfold HostZone.eventParts at hpieces
  rw [← hid, hnone] at hpieces
  simp only at hpieces
  rw [hprovider, htitle, hcurrency] at hpieces
  have hstamp : z.isoformat a.timestampUtc = z'.isoformat b.timestampUtc :=
    text_between ["fields", PyText.lower b.provider, PyText.lower (PyText.strip b.title)]
      [PyText.upper b.currency] hpieces
  rw [((HostZone.isoformat_inj ha hb).mp hstamp).2, htime]

/-! ### Records without bars

Without bars the pieces of the joined text are the texts, one by one.  So on one host the key
is the record.
-/

/-- The texts of an item, as they are compared. -/
def NormalizedNewsItem.texts (item : NormalizedNewsItem) : List String :=
  [PyText.lower item.provider, item.externalId.getD "",
    PyText.lower (PyText.strip (item.url.getD "")), PyText.lower (PyText.strip item.headline)]

/-- The texts of an event, as they are compared. -/
def NormalizedEconomicEvent.texts (e : NormalizedEconomicEvent) : List String :=
  match e.extId with
  | some id => [PyText.lower e.provider, id]
  | none => [PyText.lower e.provider, PyText.lower (PyText.strip e.title), PyText.upper e.currency]

theorem newsParts_barless {item : NormalizedNewsItem}
    (hfits : Representable (z.wall item.publishedUtc))
    (h : ∀ text ∈ item.texts, '|' ∉ text.toList) :
      ∀ text ∈ z.newsParts item, '|' ∉ text.toList := by
  have hparts : z.newsParts item = "news" :: (item.texts ++ [z.isoformat item.publishedUtc]) := rfl
  intro text htext
  rw [hparts, List.mem_cons, List.mem_append, List.mem_singleton] at htext
  rcases htext with rfl | htext | rfl
  · decide
  · exact h text htext
  · exact HostZone.bar_not_mem hfits

theorem eventParts_barless {e : NormalizedEconomicEvent}
    (hfits : Representable (z.wall e.timestampUtc))
    (h : ∀ text ∈ e.texts, '|' ∉ text.toList) : ∀ text ∈ z.eventParts e, '|' ∉ text.toList := by
  intro text htext
  unfold HostZone.eventParts at htext
  unfold NormalizedEconomicEvent.texts at h
  cases hext : e.extId with
  | some id =>
      rw [hext] at htext h
      rcases List.mem_cons.mp htext with rfl | htext
      · decide
      · exact h text htext
  | none =>
      rw [hext] at htext h
      simp only [List.mem_cons, List.not_mem_nil, or_false] at htext h
      rcases htext with rfl | rfl | rfl | rfl | rfl
      · decide
      · exact h _ (Or.inl rfl)
      · exact h _ (Or.inr (Or.inl rfl))
      · exact HostZone.bar_not_mem hfits
      · exact h _ (Or.inr (Or.inr rfl))

/-- **When the content keys identify records.**  On any two hosts the keys of two news items are
equal exactly for the same record, if and only if the hosts' offsets agree at the instant of a
record they share and the texts of the two cannot be confused, which texts without bars never
are; and so for events, where the offsets matter only to those without an identifier. -/
theorem contentKeys_identify_iff (hinj : Function.Injective PyText.sha256) (z z' : HostZone) :
    (∀ (item item' a b : NormalizedNewsItem) (published published' : Datetime),
      item.postInit z published = .ok a → item'.postInit z' published' = .ok b →
        ((z.newsItemHash a = z'.newsItemHash b ↔ a.SameNews b) ↔
          (a.SameNews b → z.gmtoff a.publishedUtc = z'.gmtoff a.publishedUtc) ∧
            ¬ Confusable (z.newsParts a) (z'.newsParts b)) ∧
        ((∀ text ∈ a.texts ++ b.texts, '|' ∉ text.toList) →
          ¬ Confusable (z.newsParts a) (z'.newsParts b))) ∧
    (∀ (e e' a b : NormalizedEconomicEvent) (timestamp timestamp' : Datetime),
      e.postInit z timestamp = .ok a → e'.postInit z' timestamp' = .ok b →
        ((z.calendarDedupKey a = z'.calendarDedupKey b ↔ a.SameIdentity b) ↔
          (a.SameIdentity b → a.extId = none →
              z.gmtoff a.timestampUtc = z'.gmtoff a.timestampUtc) ∧
            ¬ Confusable (z.eventParts a) (z'.eventParts b)) ∧
        ((∀ text ∈ a.texts ++ b.texts, '|' ∉ text.toList) →
          ¬ Confusable (z.eventParts a) (z'.eventParts b))) := by
  refine ⟨?_, ?_⟩
  · intro item item' a b published published' ha hb
    have hfits := NormalizedNewsItem.postInit_ok ha
    have hfits' := NormalizedNewsItem.postInit_ok hb
    refine ⟨newsItemHash_iff hinj hfits hfits', fun hbars => ?_⟩
    obtain ⟨hbarsA, hbarsB⟩ := List.forall_mem_append.mp hbars
    exact not_confusable (newsParts_barless hfits hbarsA) (newsParts_barless hfits' hbarsB)
  · intro e e' a b timestamp timestamp' ha hb
    have hfits := NormalizedEconomicEvent.postInit_ok ha
    have hfits' := NormalizedEconomicEvent.postInit_ok hb
    refine ⟨calendarDedupKey_iff hinj hfits hfits', fun hbars => ?_⟩
    obtain ⟨hbarsA, hbarsB⟩ := List.forall_mem_append.mp hbars
    exact not_confusable (eventParts_barless hfits hbarsA) (eventParts_barless hfits' hbarsB)

end Keys

/-! ### Two stories, two hosts -/

/-- The first hour of 2024, as UTC writes it. -/
def newYear : Datetime where
  wall := seconds 1704067200
  utcoffset := some 0
  representable := by decide
  small := by simp

/-- A story with a bar in its headline, and one with the bar in its address. -/
def barredStory (url headline : String) : NormalizedNewsItem where
  provider := "finnhub"
  headline := headline
  publishedUtc := newYear.wall
  url := some url

/-- A host that keeps UTC. -/
def hostUtc : HostZone := ⟨fun _ => 0, fun _ => by decide⟩

/-- A host an hour ahead. -/
def hostEast : HostZone := ⟨fun _ => 3600, fun _ => by decide⟩

theorem postInit_barredStory {z : HostZone} (h : Representable (z.wall newYear.wall))
    (url headline : String) :
    (barredStory url headline).postInit z newYear = .ok (barredStory url headline) := by
  unfold NormalizedNewsItem.postInit
  rw [ensureUtc_utc rfl h]
  rfl

/-- An event without an identifier. -/
def inflation : NormalizedEconomicEvent where
  provider := "finnhub"
  title := "CPI"
  timestampUtc := newYear.wall
  importance := .high
  currency := "EUR"

theorem postInit_inflation {z : HostZone} (h : Representable (z.wall newYear.wall)) :
    inflation.postInit z newYear = .ok inflation := by
  unfold NormalizedEconomicEvent.postInit
  rw [ensureUtc_utc rfl h]
  rfl

theorem newYear_fits : Representable (hostUtc.wall newYear.wall) ∧
    Representable (hostEast.wall newYear.wall) := by decide

/-- The headlines of two stories differ. -/
theorem headlines_differ {url url' headline headline' : String}
    (h : headline.toLower ≠ headline'.toLower) :
    ¬ @NormalizedNewsItem.SameNews PyText.plain (barredStory url headline)
      (barredStory url' headline') :=
  fun hsame => h (@NormalizedNewsItem.SameNews.headline PyText.plain _ _ hsame)

/-- Two different stories are told apart, on whichever host each is stored. -/
theorem stories_apart :
    @HostZone.newsItemHash PyText.plain hostUtc (barredStory "n.com/a" "eur up")
        = @HostZone.newsItemHash PyText.plain hostEast (barredStory "n.com/a" "eur down") ↔
      @NormalizedNewsItem.SameNews PyText.plain (barredStory "n.com/a" "eur up")
        (barredStory "n.com/a" "eur down") := by
  obtain ⟨hiff, hbars⟩ := (@contentKeys_identify_iff PyText.plain (fun _ _ h => h) hostUtc
    hostEast).1 _ _ _ _ newYear newYear (postInit_barredStory newYear_fits.1 "n.com/a" "eur up")
    (postInit_barredStory newYear_fits.2 "n.com/a" "eur down")
  exact hiff.mpr ⟨fun h => absurd h (headlines_differ (by decide +kernel)),
    hbars (by decide +kernel)⟩

theorem keys_collide :
    @HostZone.newsItemHash PyText.plain hostUtc (barredStory "n.com/a" "eur|usd up")
      = @HostZone.newsItemHash PyText.plain hostUtc (barredStory "n.com/a|eur" "usd up") := by
  rw [@HostZone.newsItemHash_eq PyText.plain, @HostZone.newsItemHash_eq PyText.plain,
    @hashCanonical_eq_iff PyText.plain fun _ _ h => h]
  decide +kernel

theorem keys_differ : @HostZone.calendarDedupKey PyText.plain hostUtc inflation
    ≠ @HostZone.calendarDedupKey PyText.plain hostEast inflation := by
  decide +kernel

/-- A bar moved from the headline to the address gives the key of another story, and one event
without an identifier has two keys on two hosts. -/
theorem bar_moved :
    ((barredStory "n.com/a" "eur|usd up").postInit hostUtc newYear
        = .ok (barredStory "n.com/a" "eur|usd up") ∧
      (barredStory "n.com/a|eur" "usd up").postInit hostUtc newYear
        = .ok (barredStory "n.com/a|eur" "usd up") ∧
      @HostZone.newsItemHash PyText.plain hostUtc (barredStory "n.com/a" "eur|usd up")
        = @HostZone.newsItemHash PyText.plain hostUtc (barredStory "n.com/a|eur" "usd up") ∧
      ¬ @NormalizedNewsItem.SameNews PyText.plain (barredStory "n.com/a" "eur|usd up")
        (barredStory "n.com/a|eur" "usd up")) ∧
    inflation.postInit hostUtc newYear = .ok inflation ∧
      inflation.postInit hostEast newYear = .ok inflation ∧
      @HostZone.calendarDedupKey PyText.plain hostUtc inflation
        ≠ @HostZone.calendarDedupKey PyText.plain hostEast inflation :=
  ⟨⟨postInit_barredStory newYear_fits.1 _ _, postInit_barredStory newYear_fits.1 _ _,
      keys_collide, headlines_differ (by decide +kernel)⟩,
    postInit_inflation newYear_fits.1, postInit_inflation newYear_fits.2, keys_differ⟩

end ForexAi
