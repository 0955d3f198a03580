import FrameUI.Frame.Recorder
import FrameUI.Frame.Renderer
import FrameUI.LogFile
import FrameUI.Markup.Builder
import FrameUI.Markup.Written
import FrameUI.Proofs.Frame.Breaking
import FrameUI.Proofs.Frame.Contained
import FrameUI.Proofs.Frame.Handing
import FrameUI.Proofs.Frame.Histories
import FrameUI.Proofs.Frame.Registrations
import FrameUI.Proofs.Frame.Repeating
import FrameUI.Proofs.Frame.Reports
import FrameUI.Proofs.Frame.Sessions
import FrameUI.Proofs.Frame.SingleLines
import FrameUI.Proofs.Frame.Touring
import FrameUI.Proofs.Markup.Construction
import FrameUI.Proofs.Markup.Failing
import FrameUI.Proofs.Markup.Gaps
import FrameUI.Proofs.Markup.StrictText
import FrameUI.Proofs.Style.Acyclic
import FrameUI.Proofs.Style.CheckedColors
import FrameUI.Proofs.Style.ColorTexts
import FrameUI.Proofs.Style.Comments
import FrameUI.Proofs.Style.Matching
import FrameUI.Proofs.Style.Moving
import FrameUI.Proofs.Style.Shifting
import FrameUI.Proofs.Text.Positions
import FrameUI.Proofs.Markup.ErrorPlaces
import FrameUI.Proofs.Markup.FirstErrors
import FrameUI.Proofs.Style.ErrorPlaces
import FrameUI.Proofs.Number.Longest
import FrameUI.Proofs.Markup.Escaping
import FrameUI.Proofs.Style.Blanking
import FrameUI.Proofs.Frame.Keys
import FrameUI.Proofs.Style.WrittenColors
