import Ensemble.Json.Printer
import Ensemble.Settings

/-!
# Settings as JSON

The settings are an object of their sections, and a section is an object of its fields, both in the
order in which a section that is an array would give them.
-/

namespace Ensemble.Settings

/-- The written form of a text. -/
def quoteText (text : String) : List Char := Json.quote text.toList

/-- The text of settings. -/
def renderJson (s : Settings) : List Char :=
  Json.writeObject [
    ("netzwerk", Json.writeObject [
      ("bind_adresse", quoteText s.network.bindHost),
      ("connector_port", Json.writeNat s.network.servicePort.toNat),
      ("listener_port", Json.writeNat s.network.nodePort.toNat),
      ("verbindungs_zeitlimit_ms", Json.writeNat s.network.timeLimit),
      ("max_sitzungen", Json.writeNat s.network.maxSessions),
      ("leerlauf_zeitlimit_ms", Json.writeNat s.network.idleLimit)]),
    ("connector", Json.writeObject [
      ("klopf_intervall_ms", Json.writeNat s.service.knockInterval),
      ("herzschlag_timeout_ms", Json.writeNat s.service.heartbeatTimeout),
      ("bereinigungs_intervall_ms", Json.writeNat s.service.sweepInterval),
      ("max_peers", Json.writeNat s.service.maxPeers)]),
    ("listener", Json.writeObject [
      ("connector", quoteText s.node.service),
      ("elapsed_toleranz_sek", Json.writeNat s.node.tolerance.toNat),
      ("status_nur_vom_koordinator", Json.writeBool s.node.coordinatorOnly),
      ("anzeige_intervall_sek", Json.writeNat s.node.displayInterval)]),
    ("player", Json.writeObject [
      ("start_song", Json.writeInt s.player.startSong.toInt),
      ("tick_ms", Json.writeNat s.player.tick)]),
    ("logging", Json.writeObject [
      ("level", quoteText s.log.level),
      ("format", quoteText s.log.format),
      ("datei", (s.log.file.map quoteText).getD "null".toList)])]

end Ensemble.Settings
