import Ensemble.Playback.Status

/-!
# The catalogue of songs

A song is its number, its artist, its title and its duration in seconds. Numbers outside the
catalogue are allowed everywhere; such a song has no duration and ends at once.
-/

namespace Ensemble

/-- An entry of the catalogue. -/
structure Song where
  id : SongId
  artist : String
  title : String
  duration : UInt32
  deriving Repr

/-- Every song that is known. -/
def catalogue : List Song :=
  [⟨1, "Die Gleichtakter", "Metronom im Regen", 15⟩,
   ⟨2, "Nachbars Katze", "Fensterbrett-Serenade", 20⟩,
   ⟨3, "Quarzuhr Quartett", "Synchron", 42⟩,
   ⟨4, "Paketverlust", "Drei Sekunden Stille", 30⟩,
   ⟨5, "Die Gleichtakter", "Koordinatorwahl", 95⟩,
   ⟨6, "Halbduplex", "Antwort bis EOF", 64⟩,
   ⟨7, "Kurzwelle", "Pausenzeichen", 3⟩]

/-- The song with a number. -/
def Song.find? (id : SongId) : Option Song := catalogue.find? (·.id == id)

/-- The duration of the song with a number. -/
def SongId.duration? (id : SongId) : Option UInt32 := (Song.find? id).map (·.duration)

/-- The longest duration of the catalogue. -/
def longestDuration : Nat := (catalogue.map (·.duration.toNat)).foldl max 0

/-- What is shown for the song with a number. -/
def SongId.title (id : SongId) : String :=
  match Song.find? id with
  | some song => song.artist ++ " - " ++ song.title
  | none => "Song " ++ id.render

/-- No song of the catalogue is longer than the longest. -/
theorem toNat_le_longestDuration {id : SongId} {d : UInt32} (h : SongId.duration? id = some d) :
    d.toNat ≤ longestDuration := by
  obtain ⟨song, hs, rfl⟩ := Option.map_eq_some_iff.mp h
  have all : ∀ s ∈ catalogue, s.duration.toNat ≤ longestDuration := by decide
  exact all song (List.mem_of_find?_eq_some hs)

end Ensemble
