import RichPresence.Bridge.Agreement
import RichPresence.Bridge.Backing
import RichPresence.Bridge.Desk
import RichPresence.Bridge.Exclusivity
import RichPresence.Bridge.Recency
import RichPresence.Bridge.Serializability
import RichPresence.Bridge.SlotLiveness
import RichPresence.Detect.AppIdFreshness
import RichPresence.Detect.Arguments
import RichPresence.Detect.DottedTitles
import RichPresence.Detect.ExclusionList
import RichPresence.Detect.ExecLane
import RichPresence.Detect.Fallback
import RichPresence.Detect.ForcedEmission
import RichPresence.Detect.ProbeSpec
import RichPresence.Detect.Restoration
import RichPresence.Detect.ScanLoop
import RichPresence.Detect.StandaloneId
import RichPresence.Detect.StoreIds
import RichPresence.Detect.Sweep
import RichPresence.Detect.Validators
import RichPresence.Detect.Workers
import RichPresence.Ipc.FreeEntries
import RichPresence.Ipc.SocketHolding
import RichPresence.ProcEvents.Decoding
import RichPresence.ProcEvents.LossCount
import RichPresence.Protocol.Duplicates
import RichPresence.Protocol.Survival
import RichPresence.Steam.MountProbes
import RichPresence.Steam.RefreshRuns
import RichPresence.Steam.VdfCaps
import RichPresence.Steam.VdfForgery
import RichPresence.Telemetry.GaugeClosed
import RichPresence.Update.Downgrade
import RichPresence.Ws.Census
import RichPresence.Ws.Conservation
import RichPresence.Ws.FinishedConnection
import RichPresence.Ws.Parity
import RichPresence.Ws.RefusedFlush
import RichPresence.WsServer.Writing
