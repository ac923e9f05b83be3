import ApiCompiler.Pass.Binding

/-!
# Passes — addresses

The address of an endpoint is a scheme and a host, behind which a path may begin. It is split where
the first slash of the path is; an address without a path has that of the root.

* `HttpPass.IsOrigin`, `HttpPass.fullUrl`: where an address is, and the address with its path.
* `HttpPass.splitUrl_eq_some_iff`: what an address is split into.
* `HttpPass.isOrigin_iff`, `HttpPass.origin_append_path`: the parts make up the address.
* `HttpPass.host_eq_of_origin_eq`: addresses with one origin have one host.
-/

namespace ApiCompiler.HttpPass

/-- The schemes that an address may have. -/
def schemes : List String := ["https://", "http://"]

/-- Where an address is, without its path: a scheme and a host, up to where the path begins or to
the end of the address. -/
def IsOrigin (origin url : String) : Prop :=
  ∃ scheme ∈ schemes, ∃ host path : List Char, origin = scheme ++ String.ofList host
    ∧ '/' ∉ host ∧ url = origin ++ String.ofList path ∧ (path = [] ∨ path.head? = some '/')

/-- An address with its path, the root's where it has none. -/
def fullUrl (origin url : String) : String := if url = origin then url ++ "/" else url

theorem takeWhile_host {host path : List Char} (h : '/' ∉ host)
    (hp : path = [] ∨ path.head? = some '/') :
    (host ++ path).takeWhile (· != '/') = host ∧ (host ++ path).dropWhile (· != '/') = path := by
  have all : ∀ c ∈ host, (c != '/') = true := fun c hc => by
    rw [bne_iff_ne]
    rintro rfl
    exact h hc
  have stops : path.takeWhile (· != '/') = [] ∧ path.dropWhile (· != '/') = path := by
    cases path with
    | nil => exact ⟨rfl, rfl⟩
    | cons c path =>
      obtain rfl : c = '/' := Option.some.inj (hp.resolve_left (List.cons_ne_nil _ _))
      exact ⟨rfl, rfl⟩
  rw [List.takeWhile_append_of_pos all, List.dropWhile_append_of_pos all, stops.1, stops.2,
    List.append_nil]
  exact ⟨rfl, rfl⟩

/-- An address is split into a scheme, a host and the path behind it, the root's where there is
none. -/
theorem splitUrl_eq_some_iff {url : List Char} {u : Url} : splitUrl url = some u ↔
    String.ofList u.scheme ∈ schemes ∧ '/' ∉ u.host ∧ (url = u.scheme ++ u.host ∧ u.path = ['/']
      ∨ url = u.scheme ++ (u.host ++ u.path) ∧ u.path.head? = some '/') := by
  constructor
  · intro h
    rw [splitUrl, Option.bind_eq_bind, Option.bind_eq_some_iff] at h
    obtain ⟨scheme, hscheme, h⟩ := h
    have starts := List.find?_some hscheme
    obtain ⟨rest, rfl⟩ := List.isPrefixOf_iff_prefix.1 starts
    have listed : String.ofList scheme ∈ schemes := by
      have := List.mem_of_find?_eq_some hscheme
      simp only [List.mem_cons, List.not_mem_nil, or_false] at this
      rcases this with rfl | rfl <;> decide
    have split : rest.takeWhile (· != '/') ++ rest.dropWhile (· != '/') = rest :=
      List.takeWhile_append_dropWhile
    have host : '/' ∉ rest.takeWhile (· != '/') := fun hm =>
      absurd (List.all_eq_true.1 List.all_takeWhile '/' hm) (by decide)
    have stops := List.head?_dropWhile_not (· != '/') rest
    dsimp only at h
    rw [List.drop_left] at h
    split at h
    · next hnone =>
      cases h
      rw [hnone, List.append_nil] at split
      exact ⟨listed, split ▸ host, .inl ⟨rfl, rfl⟩⟩
    · next hsome =>
      cases h
      refine ⟨listed, host, .inr ⟨by rw [split], ?_⟩⟩
      cases hpath : rest.dropWhile (· != '/') with
      | nil => exact absurd hpath hsome
      | cons c path =>
        rw [hpath] at stops
        simpa using stops
  · rintro ⟨hscheme, hhost, h⟩
    obtain ⟨scheme, host, path⟩ := u
    have found : ∀ rest, ["https://".toList, "http://".toList].find?
        (·.isPrefixOf (scheme ++ rest)) = some scheme := fun rest => by
      simp only [schemes, List.mem_cons, List.not_mem_nil, or_false, ← String.toList_inj,
        String.toList_ofList] at hscheme
      rcases hscheme with rfl | rfl <;> rfl
    rcases h with ⟨rfl, rfl⟩ | ⟨rfl, hpath⟩
    · have ends := takeWhile_host hhost (.inl rfl)
      rw [List.append_nil] at ends
      rw [splitUrl, found, Option.bind_eq_bind, Option.bind_some]
      dsimp only
      rw [List.drop_left, ends.2]
      rfl
    · obtain ⟨htake, hdrop⟩ := takeWhile_host hhost (.inr hpath)
      rw [splitUrl, found, Option.bind_eq_bind, Option.bind_some]
      dsimp only
      rw [List.drop_left, htake, hdrop]
      cases path with
      | nil => cases hpath
      | cons c path => rfl

/-- An address has an origin where it can be split, the one that it is split at. -/
theorem isOrigin_iff {origin url : String} :
    IsOrigin origin url ↔ ∃ u, splitUrl url.toList = some u ∧ u.origin = origin := by
  constructor
  · rintro ⟨scheme, hscheme, host, path, rfl, hhost, rfl, hpath⟩
    refine ⟨⟨scheme.toList, host, if path = [] then ['/'] else path⟩, ?_, by simp [Url.origin]⟩
    rw [splitUrl_eq_some_iff, String.ofList_toList]
    refine ⟨hscheme, hhost, ?_⟩
    rcases hpath with rfl | hpath
    · exact .inl ⟨by simp, rfl⟩
    · have hne : path ≠ [] := by
        rintro rfl
        cases hpath
      rw [if_neg hne]
      exact .inr ⟨by simp, hpath⟩
  · rintro ⟨u, hu, rfl⟩
    obtain ⟨hscheme, hhost, h⟩ := splitUrl_eq_some_iff.1 hu
    rcases h with ⟨h, -⟩ | ⟨h, hpath⟩
    · exact ⟨_, hscheme, u.host, [], String.ofList_append .., hhost, by simp [Url.origin, ← h],
        .inl rfl⟩
    · exact ⟨_, hscheme, u.host, u.path, String.ofList_append .., hhost, by
        rw [Url.origin, ← String.ofList_append, List.append_assoc, ← h, String.ofList_toList],
        .inr hpath⟩

theorem origin_append_path {url : String} {u : Url} (h : splitUrl url.toList = some u) :
    u.origin ++ String.ofList u.path = fullUrl u.origin url := by
  obtain ⟨-, -, h⟩ := splitUrl_eq_some_iff.1 h
  rcases h with ⟨h, hpath⟩ | ⟨h, hpath⟩
  · have same : url = u.origin := by rw [Url.origin, ← h, String.ofList_toList]
    rw [fullUrl, if_pos same, hpath, same]
  · have same : url = u.origin ++ String.ofList u.path := by
      rw [Url.origin, ← String.ofList_append, List.append_assoc, ← h, String.ofList_toList]
    rw [fullUrl, if_neg, same]
    intro he
    rw [he, ← String.toList_inj, String.toList_append, String.toList_ofList,
      List.self_eq_append_right] at same
    rw [same] at hpath
    cases hpath

/-- Addresses with one origin have one host. -/
theorem host_eq_of_origin_eq {url url' : List Char} {u u' : Url} (h : splitUrl url = some u)
    (h' : splitUrl url' = some u') (he : u.origin = u'.origin) : u.host = u'.host := by
  have split : ∀ {url u}, splitUrl url = some u →
      splitUrl u.origin.toList = some { u with path := ['/'] } := fun {_ u} hu => by
    obtain ⟨hscheme, hhost, -⟩ := splitUrl_eq_some_iff.1 hu
    exact splitUrl_eq_some_iff.2 ⟨hscheme, hhost, .inl ⟨String.toList_ofList, rfl⟩⟩
  exact (Url.mk.inj (Option.some.inj ((split h).symm.trans (he ▸ split h')))).2.1

end ApiCompiler.HttpPass
